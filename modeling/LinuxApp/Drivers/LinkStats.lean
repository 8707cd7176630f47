import LinuxApp.Drivers.Counters
import LinuxApp.Lib.Work

/-!
# The statistics of both ends

The sender's `tx_count` advances with every write that the kernel takes, also one that
returns 0 and puts nothing in flight (`emptyWrites`); the receiver's `rx_count` with every
datagram that a read brings. `Link.Balanced`: over a run the two come apart by what is in
flight and by the empty writes, however many writes are cut short and however many calls
fail. And the two can always be brought together again (`link_catches_up`).
-/

namespace LinuxApp.Drivers

open Lib LinuxApp.Core
open Prog (replay)

/-- A write that returns 0. -/
def emptyWrite : Exchange Posix → Bool
  | ⟨.write _ _, .count n _⟩ => decide (n = 0)
  | _ => false

/-- The writes of one call that return 0. -/
def LinkAct.emptyWrites : LinkAct → Nat
  | .send _ es => es.countP emptyWrite
  | .recv _ _ _ => 0

section Calls

variable {c : RpmsgCtx} {ch ch' : List (List UInt8)}

/-- A write the kernel takes is in flight or empty. -/
theorem write_balance {m : AppMsg} {a : (Syscall.write c.fd m.toList).Answer}
    (h : serve channel ch [⟨.write c.fd m.toList, a⟩] = some ch') (hfull : ∀ d ∈ ch, d ≠ []) :
    (∀ d ∈ ch', d ≠ []) ∧ (writeResult c a).2.rxCount = c.rxCount ∧
      ∃ k, (writeResult c a).2.txCount = c.txCount + .ofNat k ∧
        ch'.length + [(⟨.write c.fd m.toList, a⟩ : Exchange Posix)].countP emptyWrite =
          ch.length + k := by
  rw [serve_single] at h
  cases a with
  | failed e =>
    obtain rfl := Option.some.inj h
    exact ⟨hfull, rfl, 0, (UInt32.add_zero _).symm, rfl⟩
  | count n hn =>
    obtain rfl := Option.some.inj h
    have hlen := m.length_toList
    have hs : 0 < sizeofAppMsg := by decide
    refine ⟨?_, rfl, 1, rfl, ?_⟩
    · split
      · exact hfull
      · next hpos =>
        intro d hd hnil
        rcases List.mem_append.mp hd with hd | hd
        · exact hfull d hd hnil
        · rw [List.mem_singleton.mp hd, List.take_eq_nil_iff] at hnil
          rcases hnil with hzero | hbytes
          · exact hpos hzero
          · rw [hbytes, List.length_nil] at hlen
            omega
    · by_cases hzero : n = 0
      · simp [emptyWrite, hzero]
      · simp [emptyWrite, hzero]

/-- A read that brings a datagram takes it out of flight. -/
theorem reads_balance {old : AppMsg} {t : Int} {es : Exchanges}
    {out : Int × RpmsgCtx × List UInt8} (hr : Reads c old.toList sizeofAppMsg t es out)
    (h : serve channel ch es = some ch') (hfull : ∀ d ∈ ch, d ≠ []) :
    (∀ d ∈ ch', d ≠ []) ∧ out.2.1.txCount = c.txCount ∧
      ∃ k, out.2.1.rxCount = c.rxCount + .ofNat k ∧ ch.length = ch'.length + k := by
  cases hr with
  | stopped a _ _ =>
    obtain rfl := Option.some.inj h
    exact ⟨hfull, rfl, 0, (UInt32.add_zero _).symm, rfl⟩
  | through a hready =>
    rw [serve_append, ready_channel hready, Option.bind_some, serve_single] at h
    cases a with
    | failed e =>
      obtain rfl := Option.some.inj h
      refine ⟨hfull, ?_, 0, ?_, rfl⟩
      · simp only [readResult]
        split <;> rfl
      · simp only [readResult]
        split <;> exact (UInt32.add_zero _).symm
    | data bytes hfits =>
      cases ch with
      | nil => cases h
      | cons d rest =>
        simp only [channel] at h
        split at h
        · next hbytes =>
          obtain rfl := Option.some.inj h
          have hd := hfull d (List.mem_cons_self ..)
          have hs : 0 < sizeofAppMsg := by decide
          have hpos : 0 < bytes.length := by
            have hdpos := List.length_pos_iff.mpr hd
            rw [hbytes, List.length_take]
            omega
          refine ⟨fun x hx => hfull x (List.mem_cons_of_mem _ hx), ?_, 1, ?_, rfl⟩
          · simp only [readResult, if_pos hpos]
          · simp only [readResult, if_pos hpos]
            rfl
        · cases h

end Calls

/-- What the two ends have counted since `s₀`, with `empty` writes that returned 0. -/
structure Link.Balanced (s₀ s : Link) (empty : Nat) : Prop where
  inv : s.Inv
  full : ∀ d ∈ s.inFlight, d ≠ []
  own : s.tx.rxCount = s₀.tx.rxCount ∧ s.rx.txCount = s₀.rx.txCount
  counts : ∃ w r : Nat, s.tx.txCount = s₀.tx.txCount + .ofNat w ∧
    s.rx.rxCount = s₀.rx.rxCount + .ofNat r ∧ w = r + s.inFlight.length + empty

theorem Link.Balanced.step {s₀ s s' : Link} {n : Nat} {a : LinkAct} (hb : Link.Balanced s₀ s n)
    (h : s.step a = some s') : Link.Balanced s₀ s' (n + a.emptyWrites) := by
  have hi' := hb.inv.step h
  obtain ⟨w, r, htx, hrx, hwr⟩ := hb.counts
  cases a with
  | send m es =>
    simp only [Link.step, Option.bind_eq_bind, Option.bind_eq_some_iff, Prod.exists,
      Option.some.injEq] at h
    obtain ⟨ret, ctx, hp, c, rfl, ch, hs, rfl⟩ := h
    obtain ⟨a, rfl, -, hc⟩ := (rpmsgSendMsg_open hb.inv.tx).mp hp
    obtain rfl := Option.some.inj hc
    obtain ⟨hfull, hown, k, hk, hlen⟩ := write_balance hs hb.full
    refine ⟨hi', hfull, ⟨hown.trans hb.own.1, hb.own.2⟩, w + k, r, ?_, hrx, ?_⟩
    · rw [hk, htx, UInt32.ofNat_add, UInt32.add_assoc]
    · simp only [LinkAct.emptyWrites]
      omega
  | recv old t es =>
    simp only [Link.step, Option.bind_eq_bind, Option.bind_eq_some_iff, Prod.exists,
      Option.some.injEq] at h
    obtain ⟨ret, ctx, msg, hp, c, rfl, m, rfl, ch, hs, rfl⟩ := h
    obtain ⟨out, hr, -, hc, -⟩ := (rpmsgRecvMsg_open hb.inv.rx).mp hp
    obtain rfl := Option.some.inj hc
    obtain ⟨hfull, hown, k, hk, hlen⟩ := reads_balance hr hs hb.full
    refine ⟨hi', hfull, ⟨hb.own.1, hown.trans hb.own.2⟩, w, r + k, htx, ?_, ?_⟩
    · rw [hk, hrx, UInt32.ofNat_add, UInt32.add_assoc]
    · simp only [LinkAct.emptyWrites]
      omega

theorem link_balanced {s₀ s : Link} {as : List LinkAct} (hi : linkSys.Init s₀)
    (h : linkSys.Runs s₀ as s) : Link.Balanced s₀ s (total LinkAct.emptyWrites as) := by
  induction h with
  | nil =>
    have hch : s₀.inFlight = [] := hi.2.2.1
    refine ⟨.start hi, by simp [hch], ⟨rfl, rfl⟩, 0, 0, (UInt32.add_zero _).symm,
      (UInt32.add_zero _).symm, ?_⟩
    rw [hch]
    rfl
  | snoc _ hn ih =>
    rw [total_snoc]
    exact ih.step hn

/-- **The statistics of both ends.** Over every run of one sender and one receiver, modulo
2^32: the sender's `tx_count` has advanced by what the receiver's `rx_count` has, by one
for each datagram in flight, whole or cut short, and by one for each write that returned
0; the other two counters stand still. -/
theorem link_statistics {s₀ s : Link} {as : List LinkAct} (hi : linkSys.Init s₀)
    (h : linkSys.Runs s₀ as s) :
    s.tx.txCount - s₀.tx.txCount = s.rx.rxCount - s₀.rx.rxCount +
        .ofNat (s.inFlight.length + total LinkAct.emptyWrites as) ∧
      s.tx.rxCount = s₀.tx.rxCount ∧ s.rx.txCount = s₀.rx.txCount := by
  obtain ⟨-, -, hown, w, r, htx, hrx, hwr⟩ := link_balanced hi h
  refine ⟨?_, hown⟩
  have hw : s.tx.txCount - s₀.tx.txCount = .ofNat w := by
    rw [htx, UInt32.add_comm, UInt32.add_sub_cancel]
  have hr : s.rx.rxCount - s₀.rx.rxCount = .ofNat r := by
    rw [hrx, UInt32.add_comm, UInt32.add_sub_cancel]
  rw [hw, hr, hwr, Nat.add_assoc, UInt32.ofNat_add]

/-- A write that returns 0 and one cut short. -/
def emptyThenShort (m : AppMsg) : List LinkAct :=
  [.send m [⟨.write 3 m.toList, .count 0 (Nat.zero_le _)⟩],
    .send m [⟨.write 3 m.toList, .count 7 (by simp [sizeofAppMsg])⟩]]

theorem emptyThenShort_runs : (Sys.exec Link.step linkStart (emptyThenShort default)).isSome := by
  decide +kernel

/-- Two writes are counted, one datagram is in flight. -/
theorem link_statistics_emptyThenShort :
    ∃ s : Link, s.tx.txCount = 2 ∧ s.inFlight.length = 1 ∧
      s.tx.txCount - 0 = s.rx.rxCount - 0 + .ofNat (s.inFlight.length + 1) := by
  have hempty : total LinkAct.emptyWrites (emptyThenShort default) = 1 := by decide +kernel
  have hruns : linkSys.Runs linkStart (emptyThenShort default) _ :=
    Sys.runs_exec (Option.some_get emptyThenShort_runs).symm
  obtain ⟨hstat, -, -⟩ := link_statistics linkStart_init hruns
  rw [hempty] at hstat
  exact ⟨_, by decide +kernel, by decide +kernel, hstat⟩

/-! ## Catching up -/

/-- A receive can take the first datagram in flight. -/
theorem recv_first {s : Link} (hi : s.Inv) {d : List UInt8} {rest : List (List UInt8)}
    (hin : s.inFlight = d :: rest) :
    ∃ es t, s.step (.recv default 0 es) = some t ∧ t.sent = s.sent ∧ t.inFlight = rest := by
  have hd : d.length ≤ sizeofAppMsg := hi.short d (hin ▸ List.mem_cons_self ..)
  have hread : Reads s.rx (default : AppMsg).toList sizeofAppMsg 0
      [⟨.read s.rx.fd sizeofAppMsg, .data d hd⟩] (readResult s.rx _ (.data d hd)) :=
    .through (.data d hd) (.now rfl)
  have hrun := (rpmsgRecvMsg_open hi.rx).mpr ⟨_, hread, rfl, rfl, rfl⟩
  have hserve :
      serve channel s.inFlight [⟨.read s.rx.fd sizeofAppMsg, .data d hd⟩] = some rest := by
    rw [hin, serve_single]
    simp only [channel, List.take_of_length_le hd, if_true]
  refine ⟨[⟨.read s.rx.fd sizeofAppMsg, .data d hd⟩], ?_⟩
  simp only [Link.step, hrun, hserve]
  exact ⟨_, rfl, rfl, rfl⟩

/-- One receive for each datagram empties the channel. -/
theorem Link.Inv.drain {s : Link} (hi : s.Inv) :
    ∃ as t, linkSys.Runs s as t ∧ (∀ a ∈ as, ∃ old timeoutMs es, a = .recv old timeoutMs es) ∧
      as.length = s.inFlight.length ∧ t.Inv ∧ t.sent = s.sent ∧ t.inFlight = [] := by
  induction hin : s.inFlight generalizing s with
  | nil => exact ⟨[], s, .nil s, by simp, rfl, hi, rfl, hin⟩
  | cons d rest ih =>
    obtain ⟨es, u, hstep, hsent, hrest⟩ := recv_first hi hin
    obtain ⟨as, t, hruns, hrecv, hlen, ht, hsent', hnone⟩ := ih (hi.step hstep) hrest
    refine ⟨.recv default 0 es :: as, t, .cons hstep hruns, ?_, ?_, ht, hsent'.trans hsent, hnone⟩
    · intro a ha
      rcases List.mem_cons.mp ha with rfl | ha
      · exact ⟨_, _, _, rfl⟩
      · exact hrecv a ha
    · rw [List.length_cons, List.length_cons, hlen]

/-- **The receiver can always catch up.** From every reachable state, whatever was cut
short or failed before, a run of receives alone, one for each datagram in flight, leads to
a state with nothing in flight in which the messages received are the messages sent, in
order. -/
theorem link_catches_up {s : Link} (h : linkSys.Reach s) :
    ∃ as t, linkSys.Runs s as t ∧ (∀ a ∈ as, ∃ old timeoutMs es, a = .recv old timeoutMs es) ∧
      as.length = s.inFlight.length ∧ t.inFlight = [] ∧ t.sent = s.sent ∧ t.received = s.sent := by
  obtain ⟨as, t, hruns, hrecv, hlen, hi, hsent, hnone⟩ := (link_inv h).drain
  refine ⟨as, t, hruns, hrecv, hlen, hnone, hsent, ?_⟩
  have hcons := hi.conserve
  rw [hnone, List.filter_nil, List.append_nil, hsent] at hcons
  exact List.map_injective_iff.mpr (fun _ _ => AppMsg.toList_inj) hcons

theorem twoSent_runs :
    (Sys.exec Link.step linkStart ((shortThenWhole default).take 2)).isSome := by
  decide +kernel

/-- With a short and a whole datagram in flight: two receives, one message. -/
theorem link_catches_up_twoSent :
    ∃ (s t : Link) (as : List LinkAct), s.inFlight.length = 2 ∧ s.sent.length = 1 ∧
      as.length = 2 ∧ linkSys.Runs s as t ∧ t.received = s.sent := by
  obtain ⟨as, t, hruns, -, hlen, -, -, hrecv⟩ :=
    link_catches_up (Sys.reach_exec linkStart_init twoSent_runs)
  have htwo : (Option.get _ twoSent_runs).inFlight.length = 2 := by decide +kernel
  exact ⟨_, t, as, htwo, by decide +kernel, hlen.trans htwo, hruns, hrecv⟩

end LinuxApp.Drivers
