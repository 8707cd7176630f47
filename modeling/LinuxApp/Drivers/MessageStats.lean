import LinuxApp.Drivers.Counters

/-!
# The counters against the messages

A caller of `rpmsg_send_msg` and `rpmsg_recv_msg` sees return codes. `Settled` relates
the return code of a message-level call to its exchanges: a call with a failed exchange
(`ioFailure`) returns a negative code, any other returns 0, `-ETIMEDOUT` or `-EINVAL`,
and the raw layer's counts exceed or miss the callers' view by the short transfers and
the failed polls. Over a run this makes each counter right exactly when the number of
such exchanges since the last reset is a multiple of 2^32.
-/

namespace LinuxApp.Drivers

open Lib LinuxApp.Core
open Prog (replay)

/-- The calls of the counter laws: all but `rpmsg_poll_ready` and the raw transfers. -/
def DrvCall.Message : DrvCall → Prop
  | .openDev _ | .close | .sendMsg _ | .recvMsg _ _ | .resetStats => True
  | .pollReady _ | .readRaw _ _ _ | .writeRaw _ _ => False

def messageSys : Sys DrvState (DrvCall × Exchanges) :=
  driverSys.restrict fun _ a _ => a.1.Message

/-! ## Short transfers and failures -/

/-- A write that took less than a message. -/
def shortWrite : Exchange Posix → Bool
  | ⟨.write _ _, .count n _⟩ => decide (n < sizeofAppMsg)
  | _ => false

/-- A read that brought less than a message, but something. -/
def shortRead : Exchange Posix → Bool
  | ⟨.read _ _, .data bytes _⟩ => decide (0 < bytes.length ∧ bytes.length < sizeofAppMsg)
  | _ => false

/-- A poll that failed or reported `POLLERR`, `POLLHUP` or `POLLNVAL`. -/
def failedPoll : Exchange Posix → Bool
  | ⟨.poll _ _ _, .failed _⟩ => true
  | ⟨.poll _ _ _, .ready revents⟩ => decide (revents &&& (pollErr ||| pollHup ||| pollNval) ≠ 0)
  | _ => false

/-- An exchange that ends a message-level call in an I/O failure. -/
def ioFailure : Exchange Posix → Bool
  | ⟨.openFile _ _, .failed _⟩ => true
  | ⟨.write _ _, .failed _⟩ => true
  | ⟨.write _ _, .count n _⟩ => decide (n < sizeofAppMsg)
  | ⟨.read _ _, .failed e⟩ => decide (e.val ≠ eagain)
  | ⟨.read _ _, .data bytes _⟩ => decide (0 < bytes.length ∧ bytes.length < sizeofAppMsg)
  | ⟨.poll _ _ _, .failed _⟩ => true
  | ⟨.poll _ _ _, .ready revents⟩ => decide (revents &&& (pollErr ||| pollHup ||| pollNval) ≠ 0)
  | _ => false

/-- A failure that the driver adds to no counter. -/
def unrecorded (e : Exchange Posix) : Bool := shortWrite e || shortRead e || failedPoll e

namespace Done

/-- A `rpmsg_send_msg` that returned 0. -/
def sent (d : Done) : Bool :=
  match d.call with
  | .sendMsg _ => decide (d.ret = 0)
  | _ => false

/-- A `rpmsg_recv_msg` that returned 0. -/
def received (d : Done) : Bool :=
  match d.call with
  | .recvMsg _ _ => decide (d.ret = 0)
  | _ => false

/-- A call that reached the kernel and ended in an I/O failure. -/
def failed (d : Done) : Bool := d.has ioFailure

/-- The call ran on some context. -/
def Ran (d : Done) : Prop :=
  ∃ c c', replay (d.call.run (some c)) d.exchanges = some (d.ret, some c')

end Done

/-- A failed exchange is recorded or not, and not both. -/
theorem ioFailure_split (e : Exchange Posix) :
    (ioFailure e).toNat = (recorded e).toNat + (unrecorded e).toNat := by
  obtain ⟨r, a⟩ := e
  cases r with
  | openFile path flags => cases a <;> rfl
  | close fd => rfl
  | poll fd ev t =>
    cases a with
    | failed e => rfl
    | timeout => rfl
    | ready revents => simp [ioFailure, recorded, unrecorded, shortWrite, shortRead, failedPoll]
  | read fd len =>
    cases a with
    | failed e => simp [ioFailure, recorded, unrecorded, shortWrite, shortRead, failedPoll]
    | data bytes h => simp [ioFailure, recorded, unrecorded, shortWrite, shortRead, failedPoll]
  | write fd bytes =>
    cases a with
    | failed e => rfl
    | count n h => simp [ioFailure, recorded, unrecorded, shortWrite, shortRead, failedPoll]

theorem ioFailure_eq (e : Exchange Posix) : ioFailure e = (recorded e || unrecorded e) := by
  have h := ioFailure_split e
  cases hio : ioFailure e <;> cases hr : recorded e <;> cases hu : unrecorded e <;> simp_all

/-! ## Calls -/

/-- An exchange that no count takes notice of. -/
def Unnoticed (e : Exchange Posix) : Prop := wrote e = false ∧ got e = false ∧ ioFailure e = false

theorem Unnoticed.failures {e : Exchange Posix} (h : Unnoticed e) :
    recorded e = false ∧ unrecorded e = false := by
  have hio := h.2.2
  rwa [ioFailure_eq, Bool.or_eq_false_iff] at hio

theorem Unnoticed.short {e : Exchange Posix} (h : Unnoticed e) :
    shortWrite e = false ∧ shortRead e = false := by
  have hun := h.failures.2
  simp only [unrecorded, Bool.or_eq_false_iff] at hun
  exact hun.1

theorem has_after (call : DrvCall) (ret : Int) (es : Exchanges) {es₁ : Exchanges}
    (hq : ∀ e ∈ es₁, Unnoticed e) {p : Exchange Posix → Bool}
    (hp : ∀ e, Unnoticed e → p e = false) :
    Done.has p ⟨call, ret, es₁ ++ es⟩ = Done.has p ⟨call, ret, es⟩ := by
  have hnone : es₁.any p = false := List.any_eq_false.mpr fun e he => by simp [hp e (hq e he)]
  simp only [Done.has, List.any_append, hnone, Bool.false_or]

/-- What the return code of a message-level call says about its exchanges. -/
structure Settled (d : Done) : Prop where
  sent : (d.has wrote).toNat = d.sent.toNat + (d.has shortWrite).toNat
  received : (d.has got).toNat = d.received.toNat + (d.has shortRead).toNat
  failed : d.failed.toNat = (d.has recorded).toNat + (d.has unrecorded).toNat
  failed_ret : d.failed = true → d.ret < 0
  short_ret : (d.has shortWrite || d.has shortRead) = true → d.ret = -eio
  other_ret : d.failed = false → d.ret = 0 ∨ d.ret = -etimedout ∨ d.ret = -einval

/-- A call without a system call. -/
theorem Settled.idle (call : DrvCall) {ret : Int} (hs : Done.sent ⟨call, ret, []⟩ = false)
    (hr : Done.received ⟨call, ret, []⟩ = false)
    (hret : ret = 0 ∨ ret = -etimedout ∨ ret = -einval) : Settled ⟨call, ret, []⟩ := by
  refine ⟨?_, ?_, rfl, ?_, ?_, fun _ => hret⟩
  · rw [hs]; rfl
  · rw [hr]; rfl
  · simp [Done.failed, Done.has]
  · simp [Done.has]

theorem not_sent (call : DrvCall) {ret : Int} (es : Exchanges) (h : ret ≠ 0) :
    Done.sent ⟨call, ret, es⟩ = false ∧ Done.received ⟨call, ret, es⟩ = false := by
  unfold Done.sent Done.received
  cases call <;> simp [h]

/-- A call whose one exchange fails. -/
theorem Settled.fails {call : DrvCall} {ret : Int} {e : Exchange Posix}
    (hio : ioFailure e = true) (hneg : ret < 0) (hw : wrote e = shortWrite e)
    (hg : got e = shortRead e) (hs : (shortWrite e || shortRead e) = true → ret = -eio) :
    Settled ⟨call, ret, [e]⟩ := by
  obtain ⟨hsent, hrecv⟩ := not_sent call [e] hneg.ne
  refine ⟨?_, ?_, ?_, fun _ => hneg, ?_, ?_⟩
  · simp [hsent, Done.has, hw]
  · simp [hrecv, Done.has, hg]
  · simpa [Done.failed, Done.has] using ioFailure_split e
  · simpa [Done.has] using hs
  · simp [Done.failed, Done.has, hio]

/-- A call whose one exchange does not fail. -/
theorem Settled.passes {call : DrvCall} {ret : Int} {e : Exchange Posix}
    (hio : ioFailure e = false) (hw : wrote e = Done.sent ⟨call, ret, [e]⟩)
    (hg : got e = Done.received ⟨call, ret, [e]⟩)
    (hret : ret = 0 ∨ ret = -etimedout ∨ ret = -einval) : Settled ⟨call, ret, [e]⟩ := by
  have hun := (Bool.or_eq_false_iff.mp (ioFailure_eq e ▸ hio)).2
  obtain ⟨hsw, hsr⟩ := (Bool.or_eq_false_iff.mp (Bool.or_eq_false_iff.mp hun).1)
  refine ⟨?_, ?_, ?_, ?_, ?_, fun _ => hret⟩
  · simp [← hw, Done.has, hsw]
  · simp [← hg, Done.has, hsr]
  · simpa [Done.failed, Done.has] using ioFailure_split e
  · simp [Done.failed, Done.has, hio]
  · simp [Done.has, hsw, hsr]

/-- Unnoticed exchanges before others change nothing. -/
theorem Settled.after {call : DrvCall} {ret : Int} {es₁ es : Exchanges}
    (h : Settled ⟨call, ret, es⟩) (hq : ∀ e ∈ es₁, Unnoticed e) :
    Settled ⟨call, ret, es₁ ++ es⟩ := by
  have hskip {p : Exchange Posix → Bool} (hp : ∀ e, Unnoticed e → p e = false) :=
    has_after call ret es hq hp
  have hio : Done.failed _ = Done.failed _ := hskip fun _ he => he.2.2
  have hsw := hskip fun _ he => he.short.1
  have hsr := hskip fun _ he => he.short.2
  refine ⟨?_, ?_, ?_, ?_, ?_, ?_⟩
  · rw [hskip fun _ he => he.1, hsw]; exact h.sent
  · rw [hskip fun _ he => he.2.1, hsr]; exact h.received
  · rw [hio, hskip fun _ he => he.failures.1, hskip fun _ he => he.failures.2]
    exact h.failed
  · rw [hio]; exact h.failed_ret
  · rw [hsw, hsr]; exact h.short_ret
  · rw [hio]; exact h.other_ret

section Calls

variable {c : RpmsgCtx} {es : Exchanges} {ret : Int}

/-- What `rpmsg_send_msg` returns on each answer of `write`. -/
theorem sendRet_failed {r : Int} (h : r < 0) : sendRet r = r := by
  have hs : (0 : Int) < sizeofAppMsg := by decide
  unfold sendRet
  rw [if_neg (by omega), if_pos h]

theorem sendRet_count {n : Nat} (h : n ≤ sizeofAppMsg) :
    sendRet (ofUnsigned n) = if n < sizeofAppMsg then -eio else 0 := by
  rw [ofUnsigned_length h]
  unfold sendRet
  split
  · next hn => rw [if_neg (by omega)]
  · next hn => rw [if_neg (by omega), if_pos (by omega)]

/-- What `rpmsg_recv_msg` returns on each answer of `read`. -/
theorem recvRet_failed {r : Int} (h : r < 0) : recvRet r = r := by
  have hs : (0 : Int) < sizeofAppMsg := by decide
  unfold recvRet
  rw [if_neg (by omega), if_neg (by omega), if_pos h]

theorem recvRet_count {n : Nat} (h : n ≤ sizeofAppMsg) : recvRet (ofUnsigned n) =
    if n = 0 then -etimedout else if n < sizeofAppMsg then -eio else 0 := by
  rw [ofUnsigned_length h]
  unfold recvRet
  split
  · next hn =>
    have hs : 0 < sizeofAppMsg := by decide
    rw [if_neg (by omega), if_neg (by omega)]
  · next hn =>
    split
    · next h0 => rw [if_pos (by omega)]
    · next h0 => rw [if_neg (by omega), if_neg (by omega), if_pos (by omega)]

theorem write_settled {m : Option AppMsg} {bytes : List UInt8} (fd : Int)
    (hl : bytes.length = sizeofAppMsg) (a : WriteAnswer bytes.length) :
    Settled ⟨.sendMsg m, sendRet (writeResult c a).1, [⟨.write fd bytes, a⟩]⟩ := by
  cases a with
  | failed e =>
    have hneg := Int.neg_neg_of_pos e.pos
    simp only [writeResult, sendRet_failed hneg]
    exact .fails rfl hneg rfl rfl (by simp [shortWrite, shortRead])
  | count n hn =>
    simp only [writeResult, sendRet_count (hl ▸ hn)]
    split
    · next hs =>
      refine .fails ?_ (by decide) ?_ rfl fun _ => rfl
      · simp [ioFailure, hs]
      · simp [wrote, shortWrite, hs]
    · next hs =>
      refine .passes ?_ ?_ rfl (.inl rfl)
      · simp [ioFailure, hs]
      · simp [wrote, Done.sent]

theorem pollResult_neg (a : PollAnswer) {fd t : Int} {ev : BitVec 16} :
    pollResult a < 0 ↔ failedPoll ⟨.poll fd ev t, a⟩ = true := by
  cases a with
  | failed e =>
    have hpos := e.pos
    simp only [pollResult, failedPoll, iff_true]
    omega
  | timeout => simp [pollResult, failedPoll]
  | ready revents =>
    simp only [pollResult, failedPoll, decide_eq_true_eq]
    split
    · next hr => exact iff_of_true (by decide) hr
    · next hr => exact iff_of_false (by split <;> simp) hr

/-- A poll that lets a read through, or times out. -/
theorem poll_unnoticed {a : PollAnswer} (fd t : Int) (h : 0 ≤ pollResult a) :
    ∀ e ∈ ([⟨.poll fd pollIn t, a⟩] : Exchanges), Unnoticed e := by
  have hp : failedPoll ⟨.poll fd pollIn t, a⟩ = false := by
    rw [← Bool.not_eq_true, ← pollResult_neg]
    omega
  intro e he
  obtain rfl := List.mem_singleton.mp he
  refine ⟨rfl, rfl, ?_⟩
  rw [ioFailure_eq]
  simp [recorded, unrecorded, shortWrite, shortRead, hp]

theorem read_settled {msg : Option AppMsg} {t : Int} (fd : Int) (buf : List UInt8)
    (a : ReadAnswer sizeofAppMsg) : Settled
      ⟨.recvMsg msg t, recvRet (readResult c buf a).1, [⟨.read fd sizeofAppMsg, a⟩]⟩ := by
  cases a with
  | failed e =>
    have hneg := Int.neg_neg_of_pos e.pos
    simp only [readResult]
    split
    · next hag =>
      have hret : recvRet 0 = -etimedout := rfl
      rw [hret]
      refine .passes ?_ rfl ?_ (.inr (.inl rfl))
      · simp [ioFailure, hag]
      · simp [got, Done.received, etimedout]
    · next hag =>
      rw [recvRet_failed hneg]
      refine .fails ?_ hneg rfl rfl (by simp [shortWrite, shortRead])
      simp [ioFailure, hag]
  | data bytes h =>
    simp only [readResult, recvRet_count h]
    split
    · next h0 =>
      refine .passes ?_ rfl ?_ (.inr (.inl rfl))
      · simp [ioFailure, h0]
      · simp [got, Done.received, h0, etimedout]
    · next h0 =>
      have hpos := Nat.pos_of_ne_zero h0
      split
      · next hs =>
        refine .fails ?_ (by decide) rfl ?_ fun _ => rfl
        · simp [ioFailure, hpos, hs]
        · simp [got, shortRead, hpos, hs]
      · next hs =>
        refine .passes ?_ rfl ?_ (.inl rfl)
        · simp [ioFailure, hs]
        · simp [got, Done.received, hpos]

theorem reads_settled {msg : Option AppMsg} {t : Int} {buf : List UInt8}
    {out : Int × RpmsgCtx × List UInt8} (h : Reads c buf sizeofAppMsg t es out) :
    Settled ⟨.recvMsg msg t, recvRet out.1, es⟩ := by
  cases h with
  | stopped a _ ha =>
    by_cases hneg : pollResult a < 0
    · have hp : failedPoll ⟨.poll c.fd pollIn t, a⟩ = true := (pollResult_neg a).mp hneg
      rw [recvRet_failed hneg]
      refine .fails ?_ hneg rfl rfl (by simp [shortWrite, shortRead])
      simp [ioFailure_eq, unrecorded, hp]
    · have h0 : pollResult a = 0 := by omega
      have hret : recvRet 0 = -etimedout := rfl
      rw [h0, hret]
      have hno : Done.received ⟨.recvMsg msg t, -etimedout, []⟩ = false := by
        simp [Done.received, etimedout]
      exact (Settled.idle _ rfl hno (.inr (.inl rfl))).after (poll_unnoticed c.fd t h0.ge)
  | through a hready =>
    have hread : Settled ⟨.recvMsg msg t, _, _⟩ := read_settled (c := c) c.fd buf a
    cases hready with
    | now _ => exact hread
    | polled b _ hb => exact hread.after (poll_unnoticed c.fd t hb.le)

theorem close_unnoticed {c' : RpmsgCtx} (h : replay c.close es = some c') :
    ∀ e ∈ es, Unnoticed e := by
  cases ho : c.isOpen with
  | true =>
    obtain ⟨a, rfl, -⟩ := (close_open ho).mp h
    simp [Unnoticed, wrote, got, ioFailure]
  | false =>
    obtain ⟨rfl, -⟩ := (close_closed ho).mp h
    simp

theorem open_settled {path : Option CStr} {p : List UInt8} {flags : Nat} (a : OpenAnswer) :
    Settled ⟨.openDev path, (openResult c a).1, [⟨.openFile p flags, a⟩]⟩ := by
  cases a with
  | failed e =>
    have hneg := Int.neg_neg_of_pos e.pos
    exact .fails rfl hneg rfl rfl (by simp [shortWrite, shortRead])
  | fd n => exact .passes rfl rfl rfl (.inl rfl)

/-- Every message-level call. -/
theorem message_settled {d : Done} (hm : d.call.Message) (h : d.Ran) : Settled d := by
  obtain ⟨call, ret, es⟩ := d
  obtain ⟨c, c', h⟩ := h
  cases call with
  | openDev path =>
    obtain ⟨es₁, c₁, a, h1, hes, hret, -⟩ := rpmsgOpen_iff.mp h
    dsimp only at hes hret
    rw [hes, hret]
    exact (open_settled a).after (close_unnoticed h1)
  | close =>
    obtain ⟨c₁, hc, hret, -⟩ := close_run.mp h
    dsimp only at hc hret
    have hidle := (Settled.idle .close rfl rfl (.inl rfl)).after (close_unnoticed hc)
    rwa [List.append_nil, ← hret] at hidle
  | sendMsg msg =>
    by_cases hok : c.isOpen = true ∧ msg ≠ none
    · obtain ⟨m, rfl⟩ := Option.ne_none_iff_exists'.mp hok.2
      obtain ⟨a, hes, hret, -⟩ := (rpmsgSendMsg_open hok.1).mp h
      dsimp only at hes hret
      rw [hes, hret]
      exact write_settled c.fd m.length_toList a
    · obtain ⟨hes, hret, -⟩ := (rpmsgSendMsg_rejected hok).mp h
      dsimp only at hes hret
      rw [hes, hret]
      exact .idle _ (by simp [Done.sent, einval]) rfl (.inr (.inr rfl))
  | recvMsg msg t =>
    obtain ⟨⟨r, x, msg'⟩, hp, he⟩ := (Prog.replay_map (S := Posix)).mp h
    cases he
    by_cases hok : c.isOpen = true ∧ msg ≠ none
    · obtain ⟨m, rfl⟩ := Option.ne_none_iff_exists'.mp hok.2
      obtain ⟨out, hr, hret, -⟩ := (rpmsgRecvMsg_open hok.1).mp hp
      dsimp only at hr hret
      rw [hret]
      exact reads_settled hr
    · obtain ⟨hes, hret, -⟩ := (rpmsgRecvMsg_rejected hok).mp hp
      dsimp only at hes hret
      rw [hes, hret]
      exact .idle _ rfl (by simp [Done.received, einval]) (.inr (.inr rfl))
  | resetStats =>
    obtain ⟨hes, he⟩ := (Prog.replay_pure (S := Posix)).mp h
    cases he
    dsimp only at hes
    rw [hes]
    exact .idle _ rfl rfl (.inl rfl)
  | pollReady _ | readRaw _ _ _ | writeRaw _ _ => exact hm.elim

end Calls

/-! ## Logs -/

/-- A log holds calls that ran, and what every step of the run meets. -/
theorem log_of_restrict {S : Sys DrvState (DrvCall × Exchanges)}
    (ok : DrvCall × Exchanges → Prop) (hi : ∀ s, S.Init s → s.Fresh)
    (hn : ∀ s a t, S.Next s a t → s.step a = some t) {s : DrvState}
    (h : (S.restrict fun _ a _ => ok a).Reach s) :
    ∀ d ∈ s.log, d.Ran ∧ ok (d.call, d.exchanges) := by
  induction h with
  | init h =>
    obtain ⟨c, -, -, hlog⟩ := hi _ h
    simp [hlog]
  | @next s t a _ hnext ih =>
    obtain ⟨ret, c', fds, hp, -, rfl⟩ := DrvState.step_eq_some.mp (hn s a t hnext.1)
    intro d hd
    rcases List.mem_append.mp hd with hd | hd
    · exact ih d hd
    · obtain rfl := List.mem_singleton.mp hd
      exact ⟨⟨s.ctx, c', hp⟩, hnext.2⟩

theorem messageSys_settled {s : DrvState} (h : messageSys.Reach s) : ∀ d ∈ s.log, Settled d := by
  intro d hd
  obtain ⟨hran, hm⟩ := log_of_restrict (S := driverSys) (fun a => a.1.Message)
    (fun _ hi => hi) (fun _ _ _ hn => hn) h d hd
  exact message_settled hm hran

/-- The runs in which every exchange meets `ok` have no other in their logs. -/
theorem messageSys_never {p : Exchange Posix → Bool} {ok : Exchange Posix → Prop}
    (hp : ∀ e, ok e → p e = false) {s : DrvState}
    (h : (messageSys.restrict fun _ a _ => ∀ e ∈ a.2, ok e).Reach s) :
    tally Done.resets (Done.has p) s.log = 0 := by
  refine tally_eq_zero fun d hd => ?_
  obtain ⟨-, hok⟩ := log_of_restrict (S := messageSys) (fun a => ∀ e ∈ a.2, ok e)
    (fun _ hi => hi) (fun _ _ _ hn => hn.1) h d hd
  exact List.any_eq_false.mpr fun e he => by simp [hp e (hok e he)]

/-- A failed open, an open, a whole message each way and a timeout. -/
def wholeTransfers (m : AppMsg) : List (DrvCall × Exchanges) :=
  [(.openDev none,
      [⟨.openFile defaultDevPath.bytes (oRdwr ||| oNonblock), .failed ⟨2, by decide⟩⟩]),
    (.openDev none, [⟨.openFile defaultDevPath.bytes (oRdwr ||| oNonblock), .fd 3⟩]),
    (.sendMsg (some m), [⟨.write 3 m.toList, .count sizeofAppMsg m.length_toList.ge⟩]),
    (.recvMsg (some m) 50, [⟨.poll 3 pollIn 50, .ready pollIn⟩,
      ⟨.read 3 sizeofAppMsg, .data m.toList m.fits⟩]),
    (.recvMsg (some m) 50, [⟨.poll 3 pollIn 50, .timeout⟩])]

/-- The run of `wholeTransfers`, whose exchanges all meet `ok`. -/
theorem wholeTransfers_exists (ok : Exchange Posix → Prop) {P : DrvState → Prop}
    (hok : ∀ a ∈ wholeTransfers default, ∀ e ∈ a.2, ok e)
    (h : ∃ s ∈ Sys.exec DrvState.step driverStart (wholeTransfers default), P s) :
    ∃ s, (messageSys.restrict fun _ a _ => ∀ e ∈ a.2, ok e).Reach s ∧ P s := by
  have hm : ∀ a ∈ wholeTransfers default, a.1.Message := by
    simp [wholeTransfers, DrvCall.Message]
  exact Sys.Reach.exists_exec (wholeTransfers default) (.init driverStart_fresh)
    (fun a ha _ _ hn => ⟨⟨hn, hm a ha⟩, hok a ha⟩) h

/-! ## The success counters -/

/-- `tx_count` and `rx_count` hold, modulo 2^32, the messages sent and received since
the last reset. -/
def DrvState.SuccessesCounted (s : DrvState) : Prop :=
  Counts Done.resets Done.sent s.log s.ctx.txCount ∧
    Counts Done.resets Done.received s.log s.ctx.rxCount

instance (s : DrvState) : Decidable s.SuccessesCounted := inferInstanceAs (Decidable (_ ∧ _))

/-- **The success counters** are right in every run without short transfers; in any run
they are right exactly where the short ones since the last reset are a multiple of 2^32. -/
theorem success_counts_iff {s : DrvState} :
    ((messageSys.restrict fun _ a _ => ∀ e ∈ a.2, shortWrite e = false ∧ shortRead e = false).Reach
        s → s.SuccessesCounted) ∧
      (messageSys.Reach s → (s.SuccessesCounted ↔
        2 ^ 32 ∣ tally Done.resets (Done.has shortWrite) s.log ∧
          2 ^ 32 ∣ tally Done.resets (Done.has shortRead) s.log)) := by
  have hiff (h : messageSys.Reach s) : s.SuccessesCounted ↔
      2 ^ 32 ∣ tally Done.resets (Done.has shortWrite) s.log ∧
        2 ^ 32 ∣ tally Done.resets (Done.has shortRead) s.log := by
    have hc := driver_counts h.of_restrict
    have hs := messageSys_settled h
    exact and_congr (hc.tx.over_iff fun d hd => (hs d hd).sent)
      (hc.rx.over_iff fun d hd => (hs d hd).received)
  refine ⟨fun h => ?_, hiff⟩
  rw [hiff h.of_restrict, messageSys_never (fun _ he => he.1) h,
    messageSys_never (fun _ he => he.2) h]
  exact ⟨Nat.dvd_zero _, Nat.dvd_zero _⟩

theorem success_counts_iff_whole :
    ∃ s : DrvState, s.ctx.txCount = 1 ∧ s.ctx.rxCount = 1 ∧ s.SuccessesCounted := by
  obtain ⟨s, hr, htx, hrx⟩ := wholeTransfers_exists
    (fun e => shortWrite e = false ∧ shortRead e = false)
    (P := fun s => s.ctx.txCount = 1 ∧ s.ctx.rxCount = 1) (by decide +kernel) (by decide +kernel)
  exact ⟨s, htx, hrx, success_counts_iff.1 hr⟩

/-- An open, and a message cut short each way. -/
def shortTransfers (m : AppMsg) : List (DrvCall × Exchanges) :=
  [(.openDev none, [⟨.openFile defaultDevPath.bytes (oRdwr ||| oNonblock), .fd 3⟩]),
    (.sendMsg (some m), [⟨.write 3 m.toList, .count 100 (by simp [sizeofAppMsg])⟩]),
    (.recvMsg (some m) 0, [⟨.read 3 sizeofAppMsg, .data (m.toList.take 8) (by simp)⟩])]

/-- Both calls return `-EIO` and count as messages. -/
theorem success_counts_short : ∃ s : DrvState, messageSys.Reach s ∧
    s.log.map Done.ret = [0, -eio, -eio] ∧ s.ctx.txCount = 1 ∧ s.ctx.rxCount = 1 ∧
    ¬ s.SuccessesCounted := by
  have hm : ∀ a ∈ shortTransfers default, a.1.Message := by
    simp [shortTransfers, DrvCall.Message]
  exact Sys.Reach.exists_exec (shortTransfers default) (.init driverStart_fresh)
    (fun a ha _ _ hn => ⟨hn, hm a ha⟩) (by decide +kernel)

/-! ## The error counter -/

/-- `err_count` holds, modulo 2^32, the calls since the last reset that ended in an I/O
failure. -/
def DrvState.FailuresCounted (s : DrvState) : Prop :=
  Counts Done.resets Done.failed s.log s.ctx.errCount

instance (s : DrvState) : Decidable s.FailuresCounted :=
  inferInstanceAs (Decidable (Counts _ _ _ _))

/-- A call that does not fail, and is no reset, leaves `err_count`. -/
theorem errCount_kept {s s' : DrvState} {call : DrvCall} {es : Exchanges} {ret : Int}
    (hn : call ≠ .resetStats) (h : s.exec call es = some (ret, s'))
    (hf : Done.failed ⟨call, ret, es⟩ = false) : s'.ctx.errCount = s.ctx.errCount := by
  obtain ⟨c, fds, hp, -, rfl⟩ := DrvState.exec_eq_some.mp h
  have hrec : es.any recorded = false := by
    refine List.any_eq_false.mpr fun e he => ?_
    have hio := List.any_eq_false.mp hf e he
    rw [ioFailure_eq, Bool.or_eq_true, not_or] at hio
    exact hio.1
  have herr := (call_advances hn hp).err
  rw [hrec] at herr
  exact herr

/-- **The error counter** is right in every run without short transfers and failed polls;
in any run it is right exactly where these, since the last reset, are a multiple of 2^32.
A call that does not fail never changes it. The failed calls return negative codes, those
cut short `-EIO`, and all others 0, `-ETIMEDOUT` or `-EINVAL`. -/
theorem failure_counts_iff {s : DrvState} :
    ((messageSys.restrict fun _ a _ => ∀ e ∈ a.2, unrecorded e = false).Reach s →
        s.FailuresCounted) ∧
      (messageSys.Reach s →
        (s.FailuresCounted ↔ 2 ^ 32 ∣ tally Done.resets (Done.has unrecorded) s.log) ∧
          (∀ call es ret s', call ≠ .resetStats → s.exec call es = some (ret, s') →
            Done.failed ⟨call, ret, es⟩ = false → s'.ctx.errCount = s.ctx.errCount) ∧
          ∀ d ∈ s.log, (d.failed = true → d.ret < 0) ∧
            ((d.has shortWrite || d.has shortRead) = true → d.ret = -eio) ∧
            (d.failed = false → d.ret = 0 ∨ d.ret = -etimedout ∨ d.ret = -einval)) := by
  have hiff (h : messageSys.Reach s) :
      s.FailuresCounted ↔ 2 ^ 32 ∣ tally Done.resets (Done.has unrecorded) s.log := by
    have hs := messageSys_settled h
    exact (driver_counts h.of_restrict).err.under_iff fun d hd => (hs d hd).failed
  refine ⟨fun h => ?_, fun h => ⟨hiff h, fun _ _ _ _ hn hx hf => errCount_kept hn hx hf, ?_⟩⟩
  · rw [hiff h.of_restrict, messageSys_never (fun _ he => he) h]
    exact Nat.dvd_zero _
  · intro d hd
    have hs := messageSys_settled h d hd
    exact ⟨hs.failed_ret, hs.short_ret, hs.other_ret⟩

theorem failure_counts_iff_whole :
    ∃ s : DrvState, s.ctx.errCount = 1 ∧ s.FailuresCounted := by
  obtain ⟨s, hr, herr⟩ := wholeTransfers_exists (fun e => unrecorded e = false)
    (P := fun s => s.ctx.errCount = 1) (by decide +kernel) (by decide +kernel)
  exact ⟨s, herr, failure_counts_iff.1 hr⟩

/-- An open, and a receive on a device that hung up. -/
def hangUp (m : AppMsg) : List (DrvCall × Exchanges) :=
  [(.openDev none, [⟨.openFile defaultDevPath.bytes (oRdwr ||| oNonblock), .fd 3⟩]),
    (.recvMsg (some m) 50, [⟨.poll 3 pollIn 50, .ready pollHup⟩])]

/-- The call returns `-EIO` and `err_count` stays 0. -/
theorem failure_counts_hangUp : ∃ s : DrvState, messageSys.Reach s ∧
    s.log.map Done.ret = [0, -eio] ∧ s.ctx.errCount = 0 ∧ ¬ s.FailuresCounted := by
  have hm : ∀ a ∈ hangUp default, a.1.Message := by simp [hangUp, DrvCall.Message]
  exact Sys.Reach.exists_exec (hangUp default) (.init driverStart_fresh)
    (fun a ha _ _ hn => ⟨hn, hm a ha⟩) (by decide +kernel)

end LinuxApp.Drivers
