import LinuxApp.Drivers.Descriptors

/-!
# A sender and a receiver on one channel

`linkSys`: one context used with `rpmsg_send_msg` and another used with
`rpmsg_recv_msg`, over a FIFO that keeps datagram boundaries (`channel`). A write
may put the whole packet, a first part of it, or nothing; a read removes one
datagram or fails.

Both ends decide success by the length 264 and by nothing else (`sendRet_zero`,
`recvRet_zero`), so the whole datagrams in the channel are exactly the messages
between the two: `link_inv`.
-/

namespace LinuxApp.Drivers

open Lib LinuxApp.Core
open Prog (replay)

/-- The datagrams in flight after one exchange. -/
def channel (ch : List (List UInt8)) : Exchange Posix → Option (List (List UInt8))
  | ⟨.write _ bytes, .count n _⟩ => some (if n = 0 then ch else ch ++ [bytes.take n])
  | ⟨.write _ _, .failed _⟩ => some ch
  | ⟨.read _ len, .data bytes _⟩ =>
    match ch with
    | d :: rest => if bytes = d.take len then some rest else none
    | [] => none
  | ⟨.read _ _, .failed _⟩ => some ch
  | ⟨.poll _ _ _, _⟩ => some ch
  | ⟨.openFile _ _, _⟩ | ⟨.close _, _⟩ => none

/-- A datagram of a whole message. -/
def whole (d : List UInt8) : Bool := decide (d.length = sizeofAppMsg)

structure Link where
  /-- The sender's context. -/
  tx : RpmsgCtx
  /-- The receiver's context. -/
  rx : RpmsgCtx
  inFlight : List (List UInt8)
  /-- The messages for which `rpmsg_send_msg` returned 0. -/
  sent : List AppMsg
  /-- The messages for which `rpmsg_recv_msg` returned 0. -/
  received : List AppMsg

inductive LinkAct where
  | send (m : AppMsg) (es : Exchanges)
  /-- `old` is what the receiver's buffer held. -/
  | recv (old : AppMsg) (timeoutMs : Int) (es : Exchanges)

def Link.step (s : Link) : LinkAct → Option Link
  | .send m es => do
    let out ← replay (rpmsgSendMsg (some s.tx) (some m)) es
    let tx ← out.2
    let inFlight ← serve channel s.inFlight es
    some { s with tx, inFlight, sent := if out.1 = 0 then s.sent ++ [m] else s.sent }
  | .recv old t es => do
    let out ← replay (rpmsgRecvMsg (some s.rx) (some old) t) es
    let rx ← out.2.1
    let m ← out.2.2
    let inFlight ← serve channel s.inFlight es
    some { s with rx, inFlight, received := if out.1 = 0 then s.received ++ [m] else s.received }

/-- Two open contexts and nothing in flight. -/
def linkSys : Sys Link LinkAct :=
  .ofStep (fun s => s.tx.isOpen = true ∧ s.rx.isOpen = true ∧ s.inFlight = [] ∧ s.sent = [] ∧
    s.received = []) Link.step

/-! ## Success is the length 264 -/

theorem sendRet_zero {r : Int} : sendRet r = 0 ↔ r = sizeofAppMsg := by
  unfold sendRet eio
  split
  · simp_all
  · split <;> omega

theorem recvRet_zero {r : Int} : recvRet r = 0 ↔ r = sizeofAppMsg := by
  unfold recvRet etimedout eio
  split
  · simp_all
  · split
    · omega
    · split <;> omega

variable {c : RpmsgCtx}

/-- A poll stops a read with zero or an error. -/
theorem recvRet_stopped {r : Int} (h : r ≤ 0) : recvRet r ≠ 0 := by
  rw [Ne, recvRet_zero]
  have : (0 : Int) < sizeofAppMsg := by decide
  omega

theorem ofUnsigned_length {n : Nat} (h : n ≤ sizeofAppMsg) : ofUnsigned n = n :=
  ofUnsigned_of_lt (Nat.lt_of_le_of_lt h (by decide))

theorem writeResult_whole {bytes : List UInt8} (hl : bytes.length = sizeofAppMsg)
    (a : WriteAnswer bytes.length) :
    sendRet (writeResult c a).1 = 0 ↔ ∃ h, a = .count sizeofAppMsg h := by
  rw [sendRet_zero]
  cases a with
  | failed e =>
    have hpos := e.pos
    have hs : (0 : Int) < sizeofAppMsg := by decide
    simp only [writeResult, reduceCtorEq, exists_false, iff_false]
    omega
  | count n h =>
    simp only [writeResult, ofUnsigned_length (hl ▸ h), WriteAnswer.count.injEq]
    constructor
    · intro hn
      exact ⟨by omega, by omega⟩
    · rintro ⟨-, rfl⟩
      rfl

theorem readResult_whole (c : RpmsgCtx) (buf : List UInt8) (a : ReadAnswer sizeofAppMsg) :
    recvRet (readResult c buf a).1 = 0 ↔
      ∃ bytes h, a = .data bytes h ∧ bytes.length = sizeofAppMsg := by
  rw [recvRet_zero]
  cases a with
  | failed e =>
    have hpos := e.pos
    have hs : (0 : Int) < sizeofAppMsg := by decide
    simp only [readResult, reduceCtorEq, false_and, exists_false, iff_false]
    split
    · show ¬ (0 : Int) = _
      omega
    · show ¬ (-e.val) = _
      omega
  | data bytes h =>
    simp only [readResult, ofUnsigned_length h]
    constructor
    · intro hn
      exact ⟨bytes, h, rfl, by omega⟩
    · rintro ⟨_, -, ⟨⟩, hlen⟩
      exact_mod_cast hlen

/-- A full read leaves nothing of the old buffer. -/
theorem store_whole {buf bytes : List UInt8} (h : bytes.length = buf.length) :
    store buf bytes = bytes := by
  rw [store, h, List.drop_length, List.append_nil]

/-! ## The channel invariant -/

structure Link.Inv (s : Link) : Prop where
  tx : s.tx.isOpen = true
  rx : s.rx.isOpen = true
  /-- No datagram is longer than a message. -/
  short : ∀ d ∈ s.inFlight, d.length ≤ sizeofAppMsg
  conserve : s.received.map AppMsg.toList ++ s.inFlight.filter whole = s.sent.map AppMsg.toList

theorem short_snoc {ch : List (List UInt8)} {d : List UInt8}
    (hshort : ∀ d ∈ ch, d.length ≤ sizeofAppMsg) (hd : d.length ≤ sizeofAppMsg) :
    ∀ x ∈ ch ++ [d], x.length ≤ sizeofAppMsg := by
  intro x hx
  rcases List.mem_append.mp hx with hx | hx
  · exact hshort x hx
  · rw [List.mem_singleton.mp hx]; exact hd

/-- One write: the whole message goes in flight exactly when the call succeeds. -/
theorem write_channel {m : AppMsg} {ch ch' : List (List UInt8)}
    {a : (Syscall.write c.fd m.toList).Answer}
    (h : serve channel ch [⟨.write c.fd m.toList, a⟩] = some ch')
    (hshort : ∀ d ∈ ch, d.length ≤ sizeofAppMsg) :
    (∀ d ∈ ch', d.length ≤ sizeofAppMsg) ∧
      ch'.filter whole = ch.filter whole ++
        if sendRet (writeResult c a).1 = 0 then [m.toList] else [] := by
  have hlen := m.length_toList
  rw [serve_single] at h
  have hw := writeResult_whole (c := c) hlen a
  cases a with
  | failed e =>
    cases h
    rw [if_neg (hw.not.mpr (by rintro ⟨_, ⟨⟩⟩)), List.append_nil]
    exact ⟨hshort, rfl⟩
  | count n hn =>
    have hn' : n ≤ sizeofAppMsg := hlen ▸ hn
    cases h
    by_cases hall : n = sizeofAppMsg
    · subst hall
      have hfull : m.toList.take sizeofAppMsg = m.toList := by rw [← hlen, List.take_length]
      rw [if_pos (hw.mpr ⟨hn, rfl⟩), if_neg (by decide), hfull]
      refine ⟨short_snoc hshort m.fits, ?_⟩
      simp [whole]
    · rw [if_neg (hw.not.mpr (by rintro ⟨_, ⟨⟩⟩; exact hall rfl)), List.append_nil]
      split
      · exact ⟨hshort, rfl⟩
      · have hpart : (m.toList.take n).length = n := by
          rw [List.length_take, hlen]; omega
        refine ⟨short_snoc hshort (hpart.trans_le hn'), ?_⟩
        rw [List.filter_append]
        simp [whole, hpart, hall]

theorem ready_channel {t : Int} {es : Exchanges} (h : Ready c t es) (ch : List (List UInt8)) :
    serve channel ch es = some ch := by
  cases h with
  | now _ => rfl
  | polled a _ _ => rfl

/-- One receive: it succeeds exactly when it takes a whole datagram, and then the
buffer holds that datagram. -/
theorem reads_channel {old : AppMsg} {t : Int} {es : Exchanges} {out : Int × RpmsgCtx × List UInt8}
    {ch ch' : List (List UInt8)} (hr : Reads c old.toList sizeofAppMsg t es out)
    (h : serve channel ch es = some ch') (hshort : ∀ d ∈ ch, d.length ≤ sizeofAppMsg) :
    (∀ d ∈ ch', d.length ≤ sizeofAppMsg) ∧
      ch.filter whole = (if recvRet out.1 = 0 then [(AppMsg.ofList out.2.2).toList] else []) ++
        ch'.filter whole := by
  cases hr with
  | stopped a ht ha =>
    cases h
    rw [if_neg (recvRet_stopped ha)]
    exact ⟨hshort, rfl⟩
  | through a hready =>
    have hw := readResult_whole c old.toList a
    rw [serve_append, ready_channel hready, Option.bind_some, serve_single] at h
    cases a with
    | failed e =>
      cases h
      rw [if_neg (hw.not.mpr (by rintro ⟨_, _, ⟨⟩, -⟩))]
      exact ⟨hshort, rfl⟩
    | data bytes hfits =>
      cases ch with
      | nil => cases h
      | cons d rest =>
        simp only [channel] at h
        split at h
        · next hbytes =>
          cases h
          have hd : bytes = d := by
            rw [hbytes, List.take_of_length_le (hshort d (List.mem_cons_self ..))]
          subst hd
          refine ⟨fun x hx => hshort x (List.mem_cons_of_mem _ hx), ?_⟩
          by_cases hall : bytes.length = sizeofAppMsg
          · have hbuf : (AppMsg.ofList (store old.toList bytes)).toList = bytes := by
              rw [store_whole (by rw [hall, old.length_toList]), AppMsg.toList_ofList hall]
            rw [if_pos (hw.mpr ⟨bytes, hfits, rfl, hall⟩)]
            show _ = [(AppMsg.ofList (store old.toList bytes)).toList] ++ _
            rw [hbuf]
            simp [whole, hall]
          · rw [if_neg (hw.not.mpr (by rintro ⟨_, _, ⟨⟩, h⟩; exact hall h))]
            simp [whole, hall]
        · cases h

theorem Link.Inv.step {s s' : Link} {a : LinkAct} (hi : s.Inv) (h : s.step a = some s') :
    s'.Inv := by
  cases a with
  | send m es =>
    simp only [Link.step, Option.bind_eq_bind, Option.bind_eq_some_iff, Prod.exists,
      Option.some.injEq] at h
    obtain ⟨ret, ctx, hp, c, rfl, ch, hs, rfl⟩ := h
    obtain ⟨a, rfl, rfl, hc⟩ := (rpmsgSendMsg_open hi.tx).mp hp
    cases hc
    obtain ⟨hshort, hfilter⟩ := write_channel (m := m) hs hi.short
    refine ⟨?_, hi.rx, hshort, ?_⟩
    · have hk := writeResult_keeps hi.tx a
      rw [RpmsgCtx.isOpen, hk.fd]
      exact hi.tx
    · show _ ++ ch.filter whole = _
      rw [hfilter, ← List.append_assoc, hi.conserve]
      split <;> simp
  | recv old t es =>
    simp only [Link.step, Option.bind_eq_bind, Option.bind_eq_some_iff, Prod.exists,
      Option.some.injEq] at h
    obtain ⟨ret, ctx, msg, hp, c, rfl, m, rfl, ch, hs, rfl⟩ := h
    obtain ⟨out, hr, rfl, hc, hm⟩ := (rpmsgRecvMsg_open hi.rx).mp hp
    obtain rfl := Option.some.inj hc
    obtain rfl := Option.some.inj hm
    obtain ⟨hshort, hfilter⟩ := reads_channel hr hs hi.short
    refine ⟨hi.tx, ?_, hshort, ?_⟩
    · have hk := reads_keeps hi.rx hr
      rw [RpmsgCtx.isOpen, hk.fd]
      exact hi.rx
    · have hcons := hi.conserve
      rw [hfilter] at hcons
      rw [← hcons]
      dsimp only
      split <;> simp

theorem Link.Inv.start {s : Link} (h : linkSys.Init s) : s.Inv := by
  obtain ⟨htx, hrx, hch, hsent, hrecv⟩ := h
  exact ⟨htx, hrx, by simp [hch], by simp [hch, hsent, hrecv]⟩

theorem link_inv {s : Link} (h : linkSys.Reach s) : s.Inv :=
  h.induct (fun _ hi => .start hi) fun _ _ _ _ hi hn => hi.step hn

/-- **Framing.** However many writes are cut short and however many calls fail, the
messages received followed by the whole datagrams in flight are the messages sent. -/
theorem rpmsg_link_in_step {s : Link} (h : linkSys.Reach s) :
    s.received.map AppMsg.toList ++ s.inFlight.filter whole = s.sent.map AppMsg.toList :=
  (link_inv h).conserve

def linkStart : Link := ⟨⟨3, .replicate _ 0, 0, 0, 0⟩, ⟨4, .replicate _ 0, 0, 0, 0⟩, [], [], []⟩

theorem linkStart_init : linkSys.Init linkStart := ⟨rfl, rfl, rfl, rfl, rfl⟩

/-- A short write, a whole one, and three receives: the short datagram, a timeout,
the message. -/
def shortThenWhole (m : AppMsg) : List LinkAct :=
  [.send m [⟨.write 3 m.toList, .count 5 (by simp [sizeofAppMsg])⟩],
    .send m [⟨.write 3 m.toList, .count sizeofAppMsg (by simp)⟩],
    .recv m 0 [⟨.read 4 sizeofAppMsg, .data (m.toList.take 5) (by simp)⟩],
    .recv m 7 [⟨.poll 4 pollIn 7, .timeout⟩],
    .recv m 7 [⟨.poll 4 pollIn 7, .ready pollIn⟩,
      ⟨.read 4 sizeofAppMsg, .data m.toList m.fits⟩]]

theorem shortThenWhole_runs : (Sys.exec Link.step linkStart (shortThenWhole default)).isSome := by
  decide +kernel

theorem rpmsg_link_in_step_shortThenWhole :
    ∃ s : Link, s.sent.length = 1 ∧ s.received.length = 1 ∧
      s.received.map AppMsg.toList ++ s.inFlight.filter whole = s.sent.map AppMsg.toList :=
  ⟨_, by decide +kernel, by decide +kernel,
    rpmsg_link_in_step (Sys.reach_exec linkStart_init shortThenWhole_runs)⟩

end LinuxApp.Drivers
