import LinuxApp.Drivers.Counters

/-!
# What a return code tells

`CallVerdict`: how the return code of a call on a context follows from its system calls. A
call stops at the first one that fails and hands on its `errno`, negated; only a `read`
that finds nothing (`EAGAIN`) is no error to the raw layer and a timeout to the message
layer, and a `close`, which comes first if at all, may fail unnoticed (`AfterClose`). The
driver's own codes are `-EINVAL` before any transfer, `-EIO` and `-ETIMEDOUT`.

`rpmsg_get_stats` reports what `driver_counts` says the counters hold.
-/

namespace LinuxApp.Drivers

open Lib LinuxApp.Core
open Prog (replay)

/-- The `errno` of a system call that failed. -/
def failedWith : Exchange Posix → Option Errno
  | ⟨.openFile _ _, .failed e⟩ => some e
  | ⟨.close _, .failed e⟩ => some e
  | ⟨.poll _ _ _, .failed e⟩ => some e
  | ⟨.read _ _, .failed e⟩ => some e
  | ⟨.write _ _, .failed e⟩ => some e
  | _ => none

def closes : Exchange Posix → Bool
  | ⟨.close _, _⟩ => true
  | _ => false

/-- The bytes that a transfer moved. -/
def moved : Exchange Posix → Option Nat
  | ⟨.read _ _, .data bytes _⟩ => some bytes.length
  | ⟨.write _ _, .count n _⟩ => some n
  | _ => none

/-- None of them failed, and none is a `close`. -/
def Clean (es : Exchanges) : Prop := ∀ x ∈ es, failedWith x = none ∧ closes x = false

/-- What follows a `close` within its call, and what the call returns: nothing and 0, or
an `open` and what that one answers. -/
inductive AfterClose : Exchanges → Int → Prop where
  | nothing : AfterClose [] 0
  | opened (path : List UInt8) (flags n : Nat) : AfterClose [⟨.openFile path flags, .fd n⟩] 0
  | failed (path : List UInt8) (flags : Nat) (e : Errno) :
      AfterClose [⟨.openFile path flags, .failed e⟩] (-e.val)

/-- How the return code follows from the system calls where none is a `close`. -/
inductive Verdict : Exchanges → Int → Prop where
  /-- Refused for its arguments, or for the context being closed. -/
  | refused : Verdict [] (-einval)
  | failed {es : Exchanges} {x : Exchange Posix} {e : Errno} : Clean es → failedWith x = some e →
      closes x = false → Verdict (es ++ [x]) (-e.val)
  /-- The `read` found nothing. -/
  | nothing {es : Exchanges} {fd : Int} {len : Nat} {e : Errno} {ret : Int} : Clean es →
      e.val = eagain → ret = 0 ∨ ret = -etimedout → Verdict (es ++ [⟨.read fd len, .failed e⟩]) ret
  /-- Nothing failed: 0, 1, the number of bytes moved, or a code of the driver. -/
  | done {es : Exchanges} {ret : Int} : Clean es →
      (∃ n, ret = ofUnsigned n ∧ (n ≤ 1 ∨ ∃ x ∈ es, moved x = some n)) ∨ ret = -eio ∨
        ret = -etimedout → Verdict es ret

inductive CallVerdict : Exchanges → Int → Prop where
  | plain {es : Exchanges} {ret : Int} : Verdict es ret → CallVerdict es ret
  /-- Whatever the `close` answered. -/
  | closed {x : Exchange Posix} {es : Exchanges} {ret : Int} : closes x = true →
      AfterClose es ret → CallVerdict (x :: es) ret

section Calls

variable {c : RpmsgCtx} {es : Exchanges} {ctx : Option RpmsgCtx} {ret : Int}

theorem clean_nil : Clean [] := by simp [Clean]

theorem clean_single {x : Exchange Posix} (h : failedWith x = none) (hx : closes x = false) :
    Clean [x] := by
  intro y hy
  rw [List.mem_singleton.mp hy]
  exact ⟨h, hx⟩

theorem clean_snoc {x : Exchange Posix} (hclean : Clean es) (h : failedWith x = none)
    (hx : closes x = false) : Clean (es ++ [x]) := by
  intro y hy
  rcases List.mem_append.mp hy with hy | hy
  · exact hclean y hy
  · exact clean_single h hx y hy

theorem small_done {n : Nat} (h : Clean es) (hn : n ≤ 1) : Verdict es n :=
  .done h (.inl ⟨n, (ofUnsigned_of_lt (by omega)).symm, .inl hn⟩)

theorem failed_first {x : Exchange Posix} {e : Errno} (h : failedWith x = some e)
    (hx : closes x = false) : Verdict [x] (-e.val) := by
  have hone := Verdict.failed clean_nil h hx
  exact hone

/-- A close, on whatever the kernel answers, and then the rest of the call. -/
theorem close_verdict {c' : RpmsgCtx} {es₁ : Exchanges} (h : replay c.close es₁ = some c')
    (hafter : AfterClose es ret) (halone : Verdict es ret) : CallVerdict (es₁ ++ es) ret := by
  cases ho : c.isOpen with
  | true =>
    obtain ⟨a, rfl, -⟩ := (close_open ho).mp h
    exact .closed rfl hafter
  | false =>
    obtain ⟨rfl, -⟩ := (close_closed ho).mp h
    exact .plain halone

/-- What a poll returns by itself: to `rpmsg_poll_ready` and, unless it is 1, to the reads. -/
theorem poll_verdict (fd t : Int) (a : PollAnswer) :
    Verdict [⟨.poll fd pollIn t, a⟩] (pollResult a) := by
  cases a with
  | failed e => exact failed_first rfl rfl
  | timeout => exact small_done (n := 0) (clean_single rfl rfl) (by decide)
  | ready revents =>
    have hclean : Clean [⟨.poll fd pollIn t, .ready revents⟩] := clean_single rfl rfl
    simp only [pollResult]
    split
    · exact .done hclean (.inr (.inl rfl))
    · split
      · exact small_done (n := 1) hclean (by decide)
      · exact small_done (n := 0) hclean (by decide)

theorem write_verdict (fd : Int) {bytes : List UInt8} (a : WriteAnswer bytes.length) :
    Verdict [⟨.write fd bytes, a⟩] (writeResult c a).1 := by
  cases a with
  | failed e => exact failed_first rfl rfl
  | count n h =>
    refine .done (clean_single rfl rfl) (.inl ⟨n, ?_, .inr ?_⟩)
    · simp only [writeResult]
    · exact ⟨_, List.mem_singleton_self _, rfl⟩

theorem ready_clean {t : Int} (h : Ready c t es) : Clean es := by
  cases h with
  | now _ => exact clean_nil
  | polled a _ hpos =>
    refine clean_single ?_ rfl
    cases a with
    | failed e =>
      have := e.pos
      simp only [pollResult] at hpos
      omega
    | timeout | ready _ => rfl

theorem reads_verdict {buf : List UInt8} {len : Nat} {t : Int} {out : Int × RpmsgCtx × List UInt8}
    (h : Reads c buf len t es out) : Verdict es out.1 := by
  cases h with
  | stopped a _ _ => exact poll_verdict c.fd t a
  | through a hready =>
    have hclean := ready_clean hready
    cases a with
    | failed e =>
      simp only [readResult]
      split
      · next hag => exact .nothing hclean hag (.inl rfl)
      · exact .failed hclean rfl rfl
    | data bytes hfits =>
      refine .done (clean_snoc hclean rfl rfl) (.inl ⟨bytes.length, ?_, .inr ?_⟩)
      · simp only [readResult]
      · exact ⟨_, List.mem_append_right _ (List.mem_singleton_self _), rfl⟩

/-- `rpmsg_recv_msg` keeps the errors of `rpmsg_read_raw`. -/
theorem Verdict.recv {r : Int} (h : Verdict es r) : Verdict es (recvRet r) := by
  cases h with
  | refused =>
    have hsame : recvRet (-einval) = -einval := by decide
    rw [hsame]
    exact .refused
  | @failed es x e hclean hx hnot =>
    have hpos := e.pos
    have hsize : (sizeofAppMsg : Int) = 264 := rfl
    have hsame : recvRet (-e.val) = -e.val := by
      unfold recvRet
      rw [if_neg (by omega), if_neg (by omega), if_pos (by omega)]
    rw [hsame]
    exact .failed hclean hx hnot
  | nothing hclean hag hret =>
    refine .nothing hclean hag (.inr ?_)
    rcases hret with rfl | rfl <;> decide
  | done hclean hret =>
    unfold recvRet
    split
    · exact small_done (n := 0) hclean (by decide)
    · split
      · exact .done hclean (.inr (.inr rfl))
      · split
        · exact .done hclean hret
        · exact .done hclean (.inr (.inl rfl))

/-- `rpmsg_send_msg` keeps the error of `write`. -/
theorem send_verdict (fd : Int) {bytes : List UInt8} (a : WriteAnswer bytes.length) :
    Verdict [⟨.write fd bytes, a⟩] (sendRet (writeResult c a).1) := by
  cases a with
  | failed e =>
    have hpos := e.pos
    have hsize : (sizeofAppMsg : Int) = 264 := rfl
    have hsame : sendRet (-e.val) = -e.val := by
      unfold sendRet
      rw [if_neg (by omega), if_pos (by omega)]
    rw [writeResult, hsame]
    exact failed_first rfl rfl
  | count n h =>
    have hclean : Clean [⟨.write fd bytes, .count n h⟩] := clean_single rfl rfl
    unfold sendRet
    split
    · exact small_done (n := 0) hclean (by decide)
    · split
      · refine .done hclean (.inl ⟨n, by simp only [writeResult], .inr ?_⟩)
        exact ⟨_, List.mem_singleton_self _, rfl⟩
      · exact .done hclean (.inr (.inl rfl))

theorem open_verdict (path : List UInt8) (flags : Nat) (a : OpenAnswer) :
    Verdict [⟨.openFile path flags, a⟩] (openResult c a).1 := by
  cases a with
  | failed e => exact failed_first rfl rfl
  | fd n => exact small_done (n := 0) (clean_single rfl rfl) (by decide)

theorem open_afterClose (path : List UInt8) (flags : Nat) (a : OpenAnswer) :
    AfterClose [⟨.openFile path flags, a⟩] (openResult c a).1 := by
  cases a with
  | failed e => exact .failed path flags e
  | fd n => exact .opened path flags n

theorem call_verdict {call : DrvCall} (h : replay (call.run (some c)) es = some (ret, ctx)) :
    CallVerdict es ret := by
  cases call with
  | openDev path =>
    obtain ⟨es₁, c₁, a, h1, rfl, rfl, -⟩ := rpmsgOpen_iff.mp h
    exact close_verdict h1 (open_afterClose _ _ a) (open_verdict _ _ a)
  | close =>
    obtain ⟨c', hc, rfl, -⟩ := close_run.mp h
    have hone := close_verdict hc .nothing (small_done (n := 0) clean_nil (by decide))
    rwa [List.append_nil] at hone
  | pollReady t =>
    obtain ⟨r, hp, he⟩ := (Prog.replay_map (S := Posix)).mp h
    cases he
    cases ho : c.isOpen with
    | true =>
      obtain ⟨a, rfl, rfl⟩ := (rpmsgPollReady_open ho).mp hp
      exact .plain (poll_verdict c.fd t a)
    | false =>
      obtain ⟨rfl, rfl⟩ := (rpmsgPollReady_closed ho).mp hp
      exact .plain .refused
  | writeRaw buf len =>
    by_cases hok : Transfers c buf len
    · obtain ⟨ho, hb, hl⟩ := hok
      obtain ⟨b, rfl⟩ := Option.ne_none_iff_exists'.mp hb
      obtain ⟨a, rfl, rfl, -⟩ := (rpmsgWriteRaw_open ho hl).mp h
      exact .plain (write_verdict c.fd a)
    · obtain ⟨rfl, rfl, -⟩ := (rpmsgWriteRaw_rejected hok).mp h
      exact .plain .refused
  | readRaw buf len t =>
    obtain ⟨⟨r, x, buf'⟩, hp, he⟩ := (Prog.replay_map (S := Posix)).mp h
    cases he
    by_cases hok : Transfers c buf len
    · obtain ⟨ho, hb, hl⟩ := hok
      obtain ⟨b, rfl⟩ := Option.ne_none_iff_exists'.mp hb
      obtain ⟨out, hr, rfl, -, -⟩ := (rpmsgReadRaw_open ho hl).mp hp
      exact .plain (reads_verdict hr)
    · obtain ⟨rfl, rfl, -, -⟩ := (rpmsgReadRaw_rejected hok).mp hp
      exact .plain .refused
  | sendMsg msg =>
    by_cases hok : c.isOpen = true ∧ msg ≠ none
    · obtain ⟨m, rfl⟩ := Option.ne_none_iff_exists'.mp hok.2
      obtain ⟨a, rfl, rfl, -⟩ := (rpmsgSendMsg_open hok.1).mp h
      exact .plain (send_verdict c.fd a)
    · obtain ⟨rfl, rfl, -⟩ := (rpmsgSendMsg_rejected hok).mp h
      exact .plain .refused
  | recvMsg msg t =>
    obtain ⟨⟨r, x, msg'⟩, hp, he⟩ := (Prog.replay_map (S := Posix)).mp h
    cases he
    by_cases hok : c.isOpen = true ∧ msg ≠ none
    · obtain ⟨m, rfl⟩ := Option.ne_none_iff_exists'.mp hok.2
      obtain ⟨out, hr, rfl, -, -⟩ := (rpmsgRecvMsg_open hok.1).mp hp
      exact .plain (reads_verdict hr).recv
    · obtain ⟨rfl, rfl, -, -⟩ := (rpmsgRecvMsg_rejected hok).mp hp
      exact .plain .refused
  | resetStats =>
    obtain ⟨rfl, he⟩ := (Prog.replay_pure (S := Posix)).mp h
    cases he
    exact .plain (small_done (n := 0) clean_nil (by decide))

end Calls

theorem driver_verdict {s : DrvState} (h : driverSys.Reach s) :
    ∀ d ∈ s.log, CallVerdict d.exchanges d.ret := by
  induction h with
  | init h =>
    obtain ⟨-, -, -, hlog⟩ := h
    simp [hlog]
  | next _ hn ih =>
    obtain ⟨ret, c', fds, hp, -, rfl⟩ := DrvState.step_eq_some.mp hn
    intro d hd
    rcases List.mem_append.mp hd with hd | hd
    · exact ih d hd
    · rw [List.mem_singleton.mp hd]
      exact call_verdict hp

section Verdicts

variable {es as bs : Exchanges} {x : Exchange Posix} {ret : Int}

theorem Verdict.no_close (h : Verdict es ret) : ∀ y ∈ es, closes y = false := by
  intro y hy
  cases h with
  | refused => cases hy
  | failed hclean _ hx =>
    rcases List.mem_append.mp hy with hy | hy
    · exact (hclean y hy).2
    · rw [List.mem_singleton.mp hy]
      exact hx
  | nothing hclean _ _ =>
    rcases List.mem_append.mp hy with hy | hy
    · exact (hclean y hy).2
    · rw [List.mem_singleton.mp hy]
      rfl
  | done hclean _ => exact (hclean y hy).2

/-- A failed system call is the last of its call. -/
theorem Verdict.last (h : Verdict es ret) {e : Errno} (hes : es = as ++ x :: bs)
    (hx : failedWith x = some e) :
    bs = [] ∧ (ret = -e.val ∨ e.val = eagain ∧ (ret = 0 ∨ ret = -etimedout)) := by
  have hlast {fs : Exchanges} {y : Exchange Posix} (hclean : Clean fs)
      (heq : fs ++ [y] = as ++ x :: bs) : bs = [] ∧ y = x := by
    cases bs using List.reverseRecOn with
    | nil =>
      obtain ⟨-, hy⟩ := List.append_inj' heq rfl
      exact ⟨rfl, List.singleton_inj.mp hy⟩
    | append_singleton bs b =>
      rw [← List.cons_append, ← List.append_assoc] at heq
      obtain ⟨rfl, -⟩ := List.append_inj' heq rfl
      rw [(hclean x (by simp)).1] at hx
      cases hx
  cases h with
  | refused => simp at hes
  | failed hclean hy _ =>
    obtain ⟨rfl, rfl⟩ := hlast hclean hes
    obtain rfl := Option.some.inj (hy.symm.trans hx)
    exact ⟨rfl, .inl rfl⟩
  | nothing hclean hag hret =>
    obtain ⟨rfl, rfl⟩ := hlast hclean hes
    obtain rfl := Option.some.inj hx
    exact ⟨rfl, .inr ⟨hag, hret⟩⟩
  | done hclean _ =>
    rw [(hclean x (by simp [hes])).1] at hx
    cases hx

/-- An error code that is none of the driver's own is an `errno`. -/
theorem Verdict.genuine (h : Verdict es ret) {v : Int} (hv : 0 < v) (hret : ret = -v)
    (hsmall : ∀ x ∈ es, ∀ n, moved x = some n → n < 2 ^ 31)
    (hown : v ≠ einval ∧ v ≠ eio ∧ v ≠ etimedout) :
    ∃ x ∈ es, ∃ e, failedWith x = some e ∧ e.val = v := by
  obtain ⟨h1, h2, h3⟩ := hown
  cases h with
  | refused => omega
  | @failed es x e _ hx => exact ⟨x, by simp, e, hx, by omega⟩
  | nothing _ _ hr => omega
  | done _ hr =>
    rcases hr with ⟨n, hr, hn⟩ | hr | hr
    · have hlt : n < 2 ^ 31 := by
        rcases hn with hn | ⟨x, hx, hm⟩
        · omega
        · exact hsmall x hx n hm
      rw [ofUnsigned_of_lt hlt] at hr
      omega
    · omega
    · omega

theorem AfterClose.no_close (h : AfterClose es ret) : ∀ y ∈ es, closes y = false := by
  cases h with
  | nothing => simp
  | opened path flags n | failed path flags e => simp [closes]

/-- After a close only an `open` can fail, and its `errno` is the result. -/
theorem AfterClose.last (h : AfterClose es ret) {e : Errno} (hes : es = as ++ x :: bs)
    (hx : failedWith x = some e) : bs = [] ∧ ret = -e.val := by
  cases h with
  | nothing => simp at hes
  | opened path flags n =>
    rcases List.singleton_eq_append_iff.mp hes with ⟨-, heq⟩ | ⟨-, heq⟩
    · obtain ⟨rfl, -⟩ := List.cons.inj heq
      cases hx
    · cases heq
  | failed path flags e =>
    rcases List.singleton_eq_append_iff.mp hes with ⟨-, heq⟩ | ⟨-, heq⟩
    · obtain ⟨rfl, rfl⟩ := List.cons.inj heq
      obtain rfl := Option.some.inj hx
      exact ⟨rfl, rfl⟩
    · cases heq

theorem CallVerdict.last (h : CallVerdict es ret) {e : Errno} (hes : es = as ++ x :: bs)
    (hx : failedWith x = some e) (hno : closes x = false) :
    bs = [] ∧ (ret = -e.val ∨ e.val = eagain ∧ (ret = 0 ∨ ret = -etimedout)) := by
  cases h with
  | plain h => exact h.last hes hx
  | closed hclose hafter =>
    rcases List.cons_eq_append_iff.mp hes with ⟨-, heq⟩ | ⟨as, -, heq⟩
    · obtain ⟨rfl, -⟩ := List.cons.inj heq
      rw [hclose] at hno
      cases hno
    · obtain ⟨hbs, hret⟩ := hafter.last heq hx
      exact ⟨hbs, .inl hret⟩

/-- A close is the first system call of its call, and what it answers decides nothing. -/
theorem CallVerdict.first (h : CallVerdict es ret) (hes : es = as ++ x :: bs)
    (hx : closes x = true) : as = [] ∧ AfterClose bs ret := by
  have hmem {fs gs : Exchanges} (hno : ∀ y ∈ fs, closes y = false) (heq : fs = gs ++ x :: bs) :
      False := by
    rw [hno x (by simp [heq])] at hx
    cases hx
  cases h with
  | plain h => exact (hmem h.no_close hes).elim
  | closed _ hafter =>
    rcases List.cons_eq_append_iff.mp hes with ⟨hnil, heq⟩ | ⟨as, -, heq⟩
    · obtain ⟨-, rfl⟩ := List.cons.inj heq
      exact ⟨hnil, hafter⟩
    · exact (hmem hafter.no_close heq).elim

theorem CallVerdict.genuine (h : CallVerdict es ret) {v : Int} (hv : 0 < v) (hret : ret = -v)
    (hsmall : ∀ x ∈ es, ∀ n, moved x = some n → n < 2 ^ 31)
    (hown : v ≠ einval ∧ v ≠ eio ∧ v ≠ etimedout) :
    ∃ x ∈ es, ∃ e, closes x = false ∧ failedWith x = some e ∧ e.val = v := by
  cases h with
  | plain h =>
    obtain ⟨x, hx, e, he, hev⟩ := h.genuine hv hret hsmall hown
    exact ⟨x, hx, e, h.no_close x hx, he, hev⟩
  | closed _ hafter =>
    cases hafter with
    | nothing | opened path flags n => omega
    | failed path flags e =>
      exact ⟨_, List.mem_cons_of_mem _ (List.mem_singleton_self _), e, rfl, rfl, by omega⟩

end Verdicts

/-- **Errors are handed on and not invented.** In every run of calls on one context, a
system call other than `close` that fails is the last of its call, and the call returns
its negated `errno`, or, on `EAGAIN` only, 0 or `-ETIMEDOUT`. A `close` is the first of its
call, and whether it fails is ignored: the call returns 0 if nothing follows, else what the
`open` that follows answers. Where no transfer moves 2^31 bytes, every other negative
result but `-EINVAL`, `-EIO` and `-ETIMEDOUT` is the `errno` of a call that is no `close`. -/
theorem errors_passed_on {s : DrvState} (h : driverSys.Reach s) {d : Done} (hd : d ∈ s.log) :
    (∀ as x bs e, d.exchanges = as ++ x :: bs → failedWith x = some e → closes x = false →
      bs = [] ∧ (d.ret = -e.val ∨ e.val = eagain ∧ (d.ret = 0 ∨ d.ret = -etimedout))) ∧
    (∀ as x bs, d.exchanges = as ++ x :: bs → closes x = true →
      as = [] ∧ AfterClose bs d.ret) ∧
    ((∀ x ∈ d.exchanges, ∀ n, moved x = some n → n < 2 ^ 31) → ∀ v : Int, 0 < v → d.ret = -v →
      v ≠ einval ∧ v ≠ eio ∧ v ≠ etimedout →
      ∃ x ∈ d.exchanges, ∃ e, closes x = false ∧ failedWith x = some e ∧ e.val = v) := by
  have hverdict := driver_verdict h d hd
  exact ⟨fun _ _ _ _ hes hx hno => hverdict.last hes hx hno,
    fun _ _ _ hes hx => hverdict.first hes hx,
    fun hsmall v hv hret hown => hverdict.genuine hv hret hsmall hown⟩

/-- `EINTR` -/
def eintr : Errno := ⟨4, by decide⟩

/-- `EACCES` -/
def eacces : Errno := ⟨13, by decide⟩

/-- The `open` of `rpmsg_open(ctx, NULL)` on a fresh context. -/
def openDefault (a : OpenAnswer) : Exchange Posix :=
  ⟨.openFile defaultDevPath.bytes (oRdwr ||| oNonblock), a⟩

/-- An open that the kernel refuses, one that it grants, and a third whose close fails. -/
def refusedOpen : List (DrvCall × Exchanges) :=
  [(.openDev none, [openDefault (.failed eacces)]), (.openDev none, [openDefault (.fd 3)]),
    (.openDev none, [⟨.close 3, .failed eintr⟩, openDefault (.fd 4)])]

theorem refusedOpen_runs : (Sys.exec DrvState.step driverStart refusedOpen).isSome := by
  decide +kernel

def refused : DrvState := (Sys.exec DrvState.step driverStart refusedOpen).get refusedOpen_runs

theorem refused_reach : driverSys.Reach refused := Sys.reach_exec driverStart_fresh refusedOpen_runs

/-- The first result is the kernel's `errno`; the failed close is followed by an open. -/
theorem errors_passed_on_refused :
    (∃ d ∈ refused.log, ∃ x ∈ d.exchanges, ∃ e, failedWith x = some e ∧ e.val = 13) ∧
      ∃ d ∈ refused.log, ∃ x bs, d.exchanges = x :: bs ∧ (failedWith x).isSome = true ∧
        AfterClose bs d.ret := by
  refine ⟨?_, ?_⟩
  · have hd : ∃ d ∈ refused.log, d.ret = -13 ∧ d.exchanges.filterMap moved = [] := by
      decide +kernel
    obtain ⟨d, hd, hret, hnone⟩ := hd
    obtain ⟨-, -, hgenuine⟩ := errors_passed_on refused_reach hd
    have hsmall : ∀ x ∈ d.exchanges, ∀ n, moved x = some n → n < 2 ^ 31 := by
      intro x hx n hn
      rw [List.filterMap_eq_nil_iff.mp hnone x hx] at hn
      cases hn
    obtain ⟨x, hx, e, -, he⟩ := hgenuine hsmall 13 (by decide) hret (by decide)
    exact ⟨d, hd, x, hx, e, he⟩
  · have hd : ∃ d ∈ refused.log, ∃ x ∈ d.exchanges.head?,
        closes x = true ∧ (failedWith x).isSome = true := by decide +kernel
    obtain ⟨d, hd, x, hhead, hclose, hfail⟩ := hd
    obtain ⟨bs, hes⟩ := List.head?_eq_some_iff.mp hhead
    obtain ⟨-, hafter⟩ := (errors_passed_on refused_reach hd).2.1 [] x bs hes hclose
    exact ⟨d, hd, x, bs, hes, hfail, hafter⟩

/-- **What `rpmsg_get_stats` reports.** In every run of calls on one context it stores into
each variable that is not NULL the number, modulo 2^32, of the calls since the last reset
with a write that the kernel took, with a read that brought bytes, and with a failed
`open`, `read` or `write` other than `EAGAIN`; and it touches no NULL. -/
theorem rpmsg_get_stats_reports {s : DrvState} (h : driverSys.Reach s) (tx rx err : Option UInt32) :
    rpmsgGetStats (some s.ctx) tx rx err =
      (tx.map fun _ => .ofNat (tally Done.resets (Done.has wrote) s.log),
        rx.map fun _ => .ofNat (tally Done.resets (Done.has got) s.log),
        err.map fun _ => .ofNat (tally Done.resets (Done.has recorded) s.log)) := by
  obtain ⟨htx, hrx, herr⟩ := driver_counts h
  rw [rpmsgGetStats, htx.eq_ofNat, hrx.eq_ofNat, herr.eq_ofNat]

/-- A refused open is one error, and the NULL for `rx` stays. -/
theorem rpmsg_get_stats_reports_refused :
    rpmsgGetStats (some refused.ctx) (some 7) none (some 7) = (some 0, none, some 1) :=
  (rpmsg_get_stats_reports refused_reach _ _ _).trans (by decide +kernel)

end LinuxApp.Drivers
