import LinuxApp.Drivers.Outcomes
import LinuxApp.Lib.System

/-!
# Call sequences on one driver context

`driverSys`: a context set up by `rpmsg_ctx_init`, then any calls with any answers
of the kernel; `log` records them. `driver_inv` is the invariant of its states:
`fd` is `-1` or a descriptor, `dev_path` holds a NUL, and the descriptors opened
and not yet closed are exactly those of `RpmsgCtx.held`, in the kernel's table and
in the lifetimes that the log of system calls describes.

The calls fall in three groups, each with its step lemma: the transfers, which use
the descriptor and leave it (`Keeps`), `rpmsg_close`, and `rpmsg_open`, which is a
close followed by an `open` on a context that holds nothing.
-/

namespace LinuxApp.Drivers

open Lib LinuxApp.Core
open Prog (replay)

inductive DrvCall where
  | openDev (path : Option CStr)
  | close
  | pollReady (timeoutMs : Int)
  | readRaw (buf : Option (List UInt8)) (len : Nat) (timeoutMs : Int)
  | writeRaw (buf : Option (List UInt8)) (len : Nat)
  | sendMsg (msg : Option AppMsg)
  | recvMsg (msg : Option AppMsg) (timeoutMs : Int)
  | resetStats

/-- The call's return code (0 where the function is `void`) and the context after it. -/
def DrvCall.run (ctx : Option RpmsgCtx) : DrvCall → Prog Posix (Int × Option RpmsgCtx)
  | .openDev path => rpmsgOpen ctx path
  | .close => do
    let ctx ← rpmsgClose ctx
    pure (0, ctx)
  | .pollReady t => do
    let ret ← rpmsgPollReady ctx t
    pure (ret, ctx)
  | .readRaw buf len t => do
    let out ← rpmsgReadRaw ctx buf len t
    pure (out.1, out.2.1)
  | .writeRaw buf len => rpmsgWriteRaw ctx buf len
  | .sendMsg msg => rpmsgSendMsg ctx msg
  | .recvMsg msg t => do
    let out ← rpmsgRecvMsg ctx msg t
    pure (out.1, out.2.1)
  | .resetStats => pure (0, rpmsgResetStats ctx)

/-- A finished call with its return code and its system calls. -/
structure Done where
  call : DrvCall
  ret : Int
  exchanges : Exchanges

structure DrvState where
  ctx : RpmsgCtx
  /-- The kernel's table: the descriptors open now. -/
  fds : Finset Int
  log : List Done

namespace DrvState

/-- One call: its return code and the state after it. -/
def exec (s : DrvState) (call : DrvCall) (es : Exchanges) : Option (Int × DrvState) := do
  let out ← replay (call.run (some s.ctx)) es
  let ctx ← out.2
  let fds ← serve fdTable s.fds es
  some (out.1, ⟨ctx, fds, s.log ++ [⟨call, out.1, es⟩]⟩)

def step (s : DrvState) (a : DrvCall × Exchanges) : Option DrvState :=
  (s.exec a.1 a.2).map Prod.snd

/-- `rpmsg_recv_msg` into the memory `msg`: its return code, the memory after it, and
the state. -/
def recv (s : DrvState) (msg : AppMsg) (timeoutMs : Int) (es : Exchanges) :
    Option (Int × AppMsg × DrvState) := do
  let out ← replay (rpmsgRecvMsg (some s.ctx) (some msg) timeoutMs) es
  let ctx ← out.2.1
  let m ← out.2.2
  let fds ← serve fdTable s.fds es
  some (out.1, m, ⟨ctx, fds, s.log ++ [⟨.recvMsg (some msg) timeoutMs, out.1, es⟩]⟩)

/-- All system calls so far. -/
def trace (s : DrvState) : Exchanges := s.log.flatMap Done.exchanges

/-- A context just initialised. -/
def Fresh (s : DrvState) : Prop :=
  ∃ c, rpmsgCtxInit (some c) = some s.ctx ∧ s.fds = ∅ ∧ s.log = []

theorem exec_eq_some {s s' : DrvState} {call : DrvCall} {es : Exchanges} {ret : Int} :
    s.exec call es = some (ret, s') ↔
      ∃ c fds, replay (call.run (some s.ctx)) es = some (ret, some c) ∧
        serve fdTable s.fds es = some fds ∧ s' = ⟨c, fds, s.log ++ [⟨call, ret, es⟩]⟩ := by
  unfold exec
  simp only [Option.bind_eq_bind, Option.bind_eq_some_iff, Prod.exists, Option.some.injEq,
    Prod.mk.injEq]
  refine ⟨fun hx => ?_, fun hx => ?_⟩
  · obtain ⟨_, ctx, h1, c, rfl, fds, h2, rfl, rfl⟩ := hx
    exact ⟨c, fds, h1, h2, rfl⟩
  · obtain ⟨c, fds, h1, h2, rfl⟩ := hx
    exact ⟨ret, some c, h1, c, rfl, fds, h2, rfl, rfl⟩

theorem recv_eq_some {s s' : DrvState} {msg m : AppMsg} {t : Int} {es : Exchanges} {ret : Int} :
    s.recv msg t es = some (ret, m, s') ↔
      ∃ c fds, replay (rpmsgRecvMsg (some s.ctx) (some msg) t) es = some (ret, some c, some m) ∧
        serve fdTable s.fds es = some fds ∧
        s' = ⟨c, fds, s.log ++ [⟨.recvMsg (some msg) t, ret, es⟩]⟩ := by
  unfold recv
  simp only [Option.bind_eq_bind, Option.bind_eq_some_iff, Prod.exists, Option.some.injEq,
    Prod.mk.injEq]
  refine ⟨fun hx => ?_, fun hx => ?_⟩
  · obtain ⟨_, ctx, x, h1, c, rfl, _, rfl, fds, h2, rfl, rfl, rfl⟩ := hx
    exact ⟨c, fds, h1, h2, rfl⟩
  · obtain ⟨c, fds, h1, h2, rfl⟩ := hx
    exact ⟨ret, some c, some m, h1, c, rfl, m, rfl, fds, h2, rfl, rfl, rfl⟩

theorem exec_of_recv {s s' : DrvState} {msg m : AppMsg} {t : Int} {es : Exchanges} {ret : Int}
    (h : s.recv msg t es = some (ret, m, s')) :
    s.exec (.recvMsg (some msg) t) es = some (ret, s') := by
  obtain ⟨c, fds, h1, h2, rfl⟩ := recv_eq_some.mp h
  refine exec_eq_some.mpr ⟨c, fds, ?_, h2, rfl⟩
  exact (Prog.replay_map (S := Posix)).mpr ⟨_, h1, rfl⟩

/-- What one step is: a call that ran, entered into the log. -/
theorem step_eq_some {s s' : DrvState} {a : DrvCall × Exchanges} :
    s.step a = some s' ↔
      ∃ ret c fds, replay (a.1.run (some s.ctx)) a.2 = some (ret, some c) ∧
        serve fdTable s.fds a.2 = some fds ∧ s' = ⟨c, fds, s.log ++ [⟨a.1, ret, a.2⟩]⟩ := by
  unfold step
  rw [Option.map_eq_some_iff]
  refine ⟨fun hx => ?_, fun hx => ?_⟩
  · obtain ⟨⟨ret, _⟩, he, rfl⟩ := hx
    exact ⟨ret, exec_eq_some.mp he⟩
  · obtain ⟨ret, h⟩ := hx
    exact ⟨(ret, s'), exec_eq_some.mpr h, rfl⟩

theorem step_of_exec {s s' : DrvState} {call : DrvCall} {es : Exchanges} {ret : Int}
    (h : s.exec call es = some (ret, s')) : s.step (call, es) = some s' := by
  rw [step, h]; rfl

end DrvState

def driverSys : Sys DrvState (DrvCall × Exchanges) := .ofStep DrvState.Fresh DrvState.step

theorem driver_reach_exec {s s' : DrvState} {call : DrvCall} {es : Exchanges} {ret : Int}
    (hr : driverSys.Reach s) (h : s.exec call es = some (ret, s')) : driverSys.Reach s' :=
  hr.next (show DrvState.step s (call, es) = some s' from DrvState.step_of_exec h)

/-! ## Transfers -/

namespace RpmsgCtx

/-- The descriptors the context holds. -/
def held (c : RpmsgCtx) : Finset Int := if c.isOpen then {c.fd} else ∅

def Ok (c : RpmsgCtx) : Prop := (c.fd = -1 ∨ 0 ≤ c.fd) ∧ 0 ∈ c.devPath.toList

theorem held_open {c : RpmsgCtx} (h : c.isOpen = true) : c.held = {c.fd} := if_pos h

theorem held_closed {c : RpmsgCtx} (h : c.isOpen = false) : c.held = ∅ := by simp [held, h]

@[simp] theorem setPath_fd (c : RpmsgCtx) (p : CStr) : (c.setPath p).fd = c.fd := by
  simp only [setPath]

theorem zero_mem_setPath (c : RpmsgCtx) (p : CStr) : 0 ∈ (c.setPath p).devPath.toList := by
  rw [Vector.mem_toList_iff, Vector.mem_iff_getElem]
  exact ⟨sizeofDevPath - 1, by decide, by simp [setPath]⟩

end RpmsgCtx

/-- The system calls use the context's descriptor only, and its descriptor and path stay. -/
structure Keeps (c : RpmsgCtx) (es : Exchanges) (c' : RpmsgCtx) : Prop where
  fd : c'.fd = c.fd
  devPath : c'.devPath = c.devPath
  uses : ∀ e ∈ es, c.isOpen = true ∧ fdOp e = some (c.fd, .use)

section Keeps

variable {c c' : RpmsgCtx} {es : Exchanges}

theorem Keeps.rejected (c : RpmsgCtx) : Keeps c [] c := ⟨rfl, rfl, by simp⟩

theorem writeResult_keeps (h : c.isOpen = true) {bytes : List UInt8}
    (a : (Syscall.write c.fd bytes).Answer) :
    Keeps c [⟨.write c.fd bytes, a⟩] (writeResult c a).2 := by
  refine ⟨?_, ?_, by simp [h, fdOp]⟩ <;> cases a <;> rfl

theorem readResult_same (buf : List UInt8) {len : Nat} (a : ReadAnswer len) :
    (readResult c buf a).2.1.fd = c.fd ∧ (readResult c buf a).2.1.devPath = c.devPath := by
  cases a with
  | failed e => simp only [readResult]; split <;> exact ⟨rfl, rfl⟩
  | data bytes h => simp only [readResult]; split <;> exact ⟨rfl, rfl⟩

theorem reads_keeps (h : c.isOpen = true) {buf : List UInt8} {len : Nat} {t : Int}
    {out : Int × RpmsgCtx × List UInt8} (hr : Reads c buf len t es out) : Keeps c es out.2.1 := by
  cases hr with
  | stopped a _ _ => exact ⟨rfl, rfl, by simp [h, fdOp]⟩
  | through a hready =>
    refine ⟨(readResult_same buf a).1, (readResult_same buf a).2, ?_⟩
    cases hready with
    | now _ => simp [h, fdOp]
    | polled b _ _ => simp [h, fdOp]

theorem Keeps.held (h : Keeps c es c') : c'.held = c.held := by
  simp [RpmsgCtx.held, RpmsgCtx.isOpen, h.fd]

theorem Keeps.after (h : Keeps c es c') :
    Lifetime.after c.held (fdOps es) = some c'.held := by
  rw [h.held]
  refine Lifetime.after_uses fun e he => ?_
  obtain ⟨x, hx, hop⟩ := List.mem_filterMap.mp he
  obtain ⟨ho, hx⟩ := h.uses x hx
  rw [hx] at hop
  obtain rfl := Option.some.inj hop
  rw [RpmsgCtx.held_open ho]
  exact ⟨Finset.mem_singleton_self _, rfl⟩

/-- A transfer leaves the kernel's table alone. -/
theorem Keeps.serve (h : Keeps c es c') (fds : Finset Int) : serve fdTable fds es = some fds := by
  induction es with
  | nil => rfl
  | cons e es ih =>
    have he := (h.uses e (List.mem_cons_self ..)).2
    have hrest := ih ⟨h.fd, h.devPath, fun x hx => h.uses x (List.mem_cons_of_mem _ hx)⟩
    have hstay : fdTable fds e = some fds := by
      obtain ⟨r, a⟩ := e
      cases r with
      | openFile p f => cases a <;> simp [fdOp] at he
      | close fd => simp [fdOp] at he
      | poll fd ev t => rfl
      | read fd len => rfl
      | write fd bytes => rfl
    rw [Lib.serve, hstay]
    exact hrest

end Keeps

/-- Every call but `rpmsg_open` and `rpmsg_close` is a transfer. -/
def DrvCall.Transfer : DrvCall → Prop
  | .openDev _ | .close => False
  | _ => True

theorem DrvCall.groups (call : DrvCall) :
    call.Transfer ∨ (∃ path, call = .openDev path) ∨ call = .close := by
  cases call <;> simp [Transfer]

section Calls

variable {c : RpmsgCtx} {es : Exchanges} {ctx : Option RpmsgCtx} {ret : Int}

/-- What a transfer that clears no counter exchanges with the kernel, and the context
after it. -/
inductive Transferred (c : RpmsgCtx) : Exchanges → RpmsgCtx → Prop where
  | rejected : Transferred c [] c
  | polled (t : Int) (a : PollAnswer) : c.isOpen = true →
      Transferred c [⟨.poll c.fd pollIn t, a⟩] c
  | written (bytes : List UInt8) (a : WriteAnswer bytes.length) : c.isOpen = true →
      Transferred c [⟨.write c.fd bytes, a⟩] (writeResult c a).2
  | read {buf : List UInt8} {len : Nat} {t : Int} {es : Exchanges}
      {out : Int × RpmsgCtx × List UInt8} : c.isOpen = true → Reads c buf len t es out →
      Transferred c es out.2.1

theorem transfer_cases {call : DrvCall} (ht : call.Transfer)
    (h : replay (call.run (some c)) es = some (ret, ctx)) :
    (call = .resetStats ∧ es = [] ∧ ctx = rpmsgResetStats (some c)) ∨
      ∃ c', call ≠ .resetStats ∧ ctx = some c' ∧ Transferred c es c' := by
  cases call with
  | openDev _ | close => exact ht.elim
  | pollReady t =>
    obtain ⟨r, hp, he⟩ := (Prog.replay_map (S := Posix)).mp h
    cases he
    refine .inr ⟨c, by simp, rfl, ?_⟩
    cases ho : c.isOpen with
    | true =>
      obtain ⟨a, rfl, -⟩ := (rpmsgPollReady_open ho).mp hp
      exact .polled t a ho
    | false =>
      obtain ⟨rfl, -⟩ := (rpmsgPollReady_closed ho).mp hp
      exact .rejected
  | writeRaw buf len =>
    by_cases hok : Transfers c buf len
    · obtain ⟨ho, hb, hl⟩ := hok
      obtain ⟨b, rfl⟩ := Option.ne_none_iff_exists'.mp hb
      obtain ⟨a, rfl, -, rfl⟩ := (rpmsgWriteRaw_open ho hl).mp h
      exact .inr ⟨_, by simp, rfl, .written _ a ho⟩
    · obtain ⟨rfl, -, rfl⟩ := (rpmsgWriteRaw_rejected hok).mp h
      exact .inr ⟨c, by simp, rfl, .rejected⟩
  | readRaw buf len t =>
    obtain ⟨⟨r, x, buf'⟩, hp, he⟩ := (Prog.replay_map (S := Posix)).mp h
    cases he
    by_cases hok : Transfers c buf len
    · obtain ⟨ho, hb, hl⟩ := hok
      obtain ⟨b, rfl⟩ := Option.ne_none_iff_exists'.mp hb
      obtain ⟨out, hr, -, rfl, -⟩ := (rpmsgReadRaw_open ho hl).mp hp
      exact .inr ⟨_, by simp, rfl, .read ho hr⟩
    · obtain ⟨rfl, -, rfl, -⟩ := (rpmsgReadRaw_rejected hok).mp hp
      exact .inr ⟨c, by simp, rfl, .rejected⟩
  | sendMsg msg =>
    by_cases hok : c.isOpen = true ∧ msg ≠ none
    · obtain ⟨m, rfl⟩ := Option.ne_none_iff_exists'.mp hok.2
      obtain ⟨a, rfl, -, rfl⟩ := (rpmsgSendMsg_open hok.1).mp h
      exact .inr ⟨_, by simp, rfl, .written _ a hok.1⟩
    · obtain ⟨rfl, -, rfl⟩ := (rpmsgSendMsg_rejected hok).mp h
      exact .inr ⟨c, by simp, rfl, .rejected⟩
  | recvMsg msg t =>
    obtain ⟨⟨r, x, msg'⟩, hp, he⟩ := (Prog.replay_map (S := Posix)).mp h
    cases he
    by_cases hok : c.isOpen = true ∧ msg ≠ none
    · obtain ⟨m, rfl⟩ := Option.ne_none_iff_exists'.mp hok.2
      obtain ⟨out, hr, -, rfl, -⟩ := (rpmsgRecvMsg_open hok.1).mp hp
      exact .inr ⟨_, by simp, rfl, .read hok.1 hr⟩
    · obtain ⟨rfl, -, rfl, -⟩ := (rpmsgRecvMsg_rejected hok).mp hp
      exact .inr ⟨c, by simp, rfl, .rejected⟩
  | resetStats =>
    obtain ⟨rfl, he⟩ := (Prog.replay_pure (S := Posix)).mp h
    cases he
    exact .inl ⟨rfl, rfl, rfl⟩

theorem Transferred.keeps {c' : RpmsgCtx} (h : Transferred c es c') : Keeps c es c' := by
  cases h with
  | rejected => exact .rejected c
  | polled t a ho => exact ⟨rfl, rfl, by simp [ho, fdOp]⟩
  | written bytes a ho => exact writeResult_keeps ho a
  | read ho hr => exact reads_keeps ho hr

theorem transfer_keeps {call : DrvCall} (ht : call.Transfer)
    (h : replay (call.run (some c)) es = some (ret, ctx)) :
    ∃ c', ctx = some c' ∧ Keeps c es c' := by
  rcases transfer_cases ht h with ⟨-, rfl, rfl⟩ | ⟨c', -, rfl, hc⟩
  · exact ⟨_, rfl, rfl, rfl, by simp⟩
  · exact ⟨c', rfl, hc.keeps⟩

/-! ## Closing and opening -/

/-- What a call does to the descriptors when the kernel's table is what `c` holds. -/
structure Disciplined (c : RpmsgCtx) (es : Exchanges) (c' : RpmsgCtx) : Prop where
  table : serve fdTable c.held es = some c'.held
  lifetimes : Lifetime.after c.held (fdOps es) = some c'.held

theorem Disciplined.refl (c : RpmsgCtx) : Disciplined c [] c := ⟨rfl, rfl⟩

theorem Disciplined.trans {c c₁ c₂ : RpmsgCtx} {es fs : Exchanges} (h1 : Disciplined c es c₁)
    (h2 : Disciplined c₁ fs c₂) : Disciplined c (es ++ fs) c₂ := by
  refine ⟨?_, ?_⟩
  · rw [serve_append, h1.table]
    exact h2.table
  · rw [fdOps, List.filterMap_append, Lifetime.after_append]
    show (Lifetime.after c.held (fdOps es)).bind _ = _
    rw [h1.lifetimes]
    exact h2.lifetimes

theorem Keeps.disciplined {c c' : RpmsgCtx} {es : Exchanges} (h : Keeps c es c') :
    Disciplined c es c' := ⟨by rw [h.serve, h.held], h.after⟩

theorem close_run : replay (DrvCall.close.run (some c)) es = some (ret, ctx) ↔
    ∃ c', replay c.close es = some c' ∧ ret = 0 ∧ ctx = some c' := by
  refine ⟨fun hx => ?_, fun hx => ?_⟩
  · obtain ⟨x, hp, he⟩ := (Prog.replay_map (S := Posix)).mp hx
    obtain ⟨c', hc, rfl⟩ := rpmsgClose_iff.mp hp
    cases he
    exact ⟨c', hc, rfl, rfl⟩
  · obtain ⟨c', hc, rfl, rfl⟩ := hx
    exact (Prog.replay_map (S := Posix)).mpr ⟨_, rpmsgClose_iff.mpr ⟨c', hc, rfl⟩, rfl⟩

theorem close_disciplined {c' : RpmsgCtx} (h : replay c.close es = some c') :
    Disciplined c es c' ∧ c'.isOpen = false ∧ c'.devPath = c.devPath ∧ (c.Ok → c'.Ok) := by
  cases ho : c.isOpen with
  | true =>
    obtain ⟨a, rfl, rfl⟩ := (close_open ho).mp h
    have hclosed : RpmsgCtx.isOpen { c with fd := -1 } = false := by simp [RpmsgCtx.isOpen]
    have hheld := RpmsgCtx.held_closed hclosed
    refine ⟨⟨?_, ?_⟩, hclosed, rfl, fun hok => ⟨.inl rfl, hok.2⟩⟩
    · rw [RpmsgCtx.held_open ho, hheld]
      simp [fdTable]
    · rw [RpmsgCtx.held_open ho, hheld]
      simp [fdOps, fdOp, Lifetime.after, Lifetime.touch]
  | false =>
    obtain ⟨rfl, rfl⟩ := (close_closed ho).mp h
    exact ⟨.refl c, ho, rfl, id⟩

/-- `dev_path` is replaced by a string or left. -/
theorem choosePath_cases (c : RpmsgCtx) (path : Option CStr) :
    (∃ p, choosePath c path = c.setPath p) ∨ choosePath c path = c := by
  unfold choosePath
  split
  · split
    · exact .inl ⟨_, rfl⟩
    · split
      · exact .inl ⟨_, rfl⟩
      · exact .inr rfl
  · split
    · exact .inl ⟨_, rfl⟩
    · exact .inr rfl

theorem choosePath_fd (c : RpmsgCtx) (path : Option CStr) : (choosePath c path).fd = c.fd := by
  rcases choosePath_cases c path with ⟨p, h⟩ | h
  · rw [h, RpmsgCtx.setPath_fd]
  · rw [h]

/-- The path chosen ends in a NUL if the old one did. -/
theorem zero_mem_choosePath {c : RpmsgCtx} (path : Option CStr) (h : 0 ∈ c.devPath.toList) :
    0 ∈ (choosePath c path).devPath.toList := by
  rcases choosePath_cases c path with ⟨p, hp⟩ | hp
  · rw [hp]; exact c.zero_mem_setPath p
  · rw [hp]; exact h

theorem openResult_disciplined {c : RpmsgCtx} (hc : c.isOpen = false) (path : List UInt8)
    (flags : Nat) (a : (Syscall.openFile path flags).Answer) :
    Disciplined c [⟨.openFile path flags, a⟩] (openResult c a).2 := by
  have hheld := RpmsgCtx.held_closed hc
  cases a with
  | failed e =>
    have hclosed : RpmsgCtx.isOpen (openResult c (.failed e)).2 = false := hc
    refine ⟨?_, ?_⟩
    · rw [hheld, RpmsgCtx.held_closed hclosed]; rfl
    · rw [hheld, RpmsgCtx.held_closed hclosed]; rfl
  | fd n =>
    have hopen : RpmsgCtx.isOpen (openResult c (.fd n)).2 = true := by
      simp [openResult, RpmsgCtx.isOpen]
    refine ⟨?_, ?_⟩
    · rw [hheld, RpmsgCtx.held_open hopen]; rfl
    · rw [hheld, RpmsgCtx.held_open hopen]; rfl

/-- `rpmsg_open` gives up the old descriptor and holds the new one, if there is one. -/
theorem rpmsgOpen_disciplined {path : Option CStr} (hok : c.Ok)
    (h : replay (rpmsgOpen (some c) path) es = some (ret, ctx)) :
    ∃ c', ctx = some c' ∧ Disciplined c es c' ∧ c'.Ok ∧ (ret ≠ 0 → c'.fd = -1) := by
  obtain ⟨es₁, c₁, a, h1, rfl, rfl, rfl⟩ := rpmsgOpen_iff.mp h
  obtain ⟨hd, hclosed, -, hok₁⟩ := close_disciplined h1
  have hclosed' : (choosePath c₁ path).isOpen = false := by
    rw [RpmsgCtx.isOpen, choosePath_fd]; exact hclosed
  have hfd : (choosePath c₁ path).fd = -1 := by
    rw [choosePath_fd]
    simp only [RpmsgCtx.isOpen, decide_eq_false_iff_not] at hclosed
    exact (hok₁ hok).1.resolve_right hclosed
  have hheld : c₁.held = (choosePath c₁ path).held := by
    rw [RpmsgCtx.held_closed hclosed, RpmsgCtx.held_closed hclosed']
  have hzero := zero_mem_choosePath path (hok₁ hok).2
  have hopen := openResult_disciplined hclosed' (choosePath c₁ path).path (oRdwr ||| oNonblock) a
  refine ⟨_, rfl, hd.trans ⟨?_, ?_⟩, ?_, ?_⟩
  · rw [hheld]; exact hopen.table
  · rw [hheld]; exact hopen.lifetimes
  · cases a with
    | failed e => exact ⟨.inl hfd, hzero⟩
    | fd n => exact ⟨.inr (Int.natCast_nonneg n), hzero⟩
  · cases a with
    | failed e => exact fun _ => hfd
    | fd n => exact fun hne => absurd rfl hne

end Calls

/-! ## Whole runs -/

/-- Every call keeps the discipline and a context that is `Ok`. -/
theorem call_disciplined {c : RpmsgCtx} {es : Exchanges} {ctx : Option RpmsgCtx} {ret : Int}
    {call : DrvCall} (hok : c.Ok) (h : replay (call.run (some c)) es = some (ret, ctx)) :
    ∃ c', ctx = some c' ∧ Disciplined c es c' ∧ c'.Ok := by
  rcases call.groups with ht | ⟨path, rfl⟩ | rfl
  · obtain ⟨c', rfl, hk⟩ := transfer_keeps ht h
    refine ⟨c', rfl, hk.disciplined, ?_⟩
    rw [RpmsgCtx.Ok, hk.fd, hk.devPath]
    exact hok
  · obtain ⟨c', rfl, hd, hok', -⟩ := rpmsgOpen_disciplined hok h
    exact ⟨c', rfl, hd, hok'⟩
  · obtain ⟨c', hc, -, rfl⟩ := close_run.mp h
    obtain ⟨hd, -, -, hok'⟩ := close_disciplined hc
    exact ⟨c', rfl, hd, hok' hok⟩

structure DrvState.Inv (s : DrvState) : Prop where
  ok : s.ctx.Ok
  table : s.fds = s.ctx.held
  lifetimes : Lifetime.after ∅ (fdOps s.trace) = some s.ctx.held

theorem rpmsgCtxInit_ok {c c' : RpmsgCtx} (h : rpmsgCtxInit (some c) = some c') :
    c'.Ok ∧ c'.isOpen = false := by
  cases h
  exact ⟨⟨.inl rfl, c.zero_mem_setPath _⟩, rfl⟩

theorem driver_inv {s : DrvState} (h : driverSys.Reach s) : s.Inv := by
  induction h with
  | init h =>
    obtain ⟨c, hc, hfds, hlog⟩ := h
    obtain ⟨hok, hclosed⟩ := rpmsgCtxInit_ok hc
    refine ⟨hok, ?_, ?_⟩
    · rw [hfds, RpmsgCtx.held_closed hclosed]
    · rw [DrvState.trace, hlog, RpmsgCtx.held_closed hclosed]; rfl
  | @next s t a _ hn ih =>
    obtain ⟨ret, c', fds, hp, hs, rfl⟩ := DrvState.step_eq_some.mp hn
    obtain ⟨c'', he, hd, hok⟩ := call_disciplined ih.ok hp
    cases he
    refine ⟨hok, ?_, ?_⟩
    · rw [ih.table, hd.table] at hs
      exact (Option.some.inj hs).symm
    · simp only [DrvState.trace, List.flatMap_append, List.flatMap_singleton, fdOps,
        List.filterMap_append, Lifetime.after_append]
      show (Lifetime.after ∅ (fdOps s.trace)).bind _ = _
      rw [ih.lifetimes]
      exact hd.lifetimes

/-- A context of zero bytes, initialised. -/
def driverStart : DrvState where
  ctx := { (RpmsgCtx.mk 0 (.replicate _ 0) 0 0 0).setPath defaultDevPath with
    fd := -1, txCount := 0, rxCount := 0, errCount := 0 }
  fds := ∅
  log := []

theorem driverStart_fresh : driverStart.Fresh := ⟨_, rfl, rfl, rfl⟩

end LinuxApp.Drivers
