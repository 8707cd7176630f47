import LinuxApp.Drivers.RpmsgDriver

/-!
# What each driver function exchanges with the kernel

One lemma per function: the exchanges it can have on a valid context, with what it
returns and what it leaves in the context and the buffer. Later proofs use these
and never unfold the functions. A transfer on a closed context, without a buffer
or of length zero is rejected with `-EINVAL` before any system call.
-/

namespace LinuxApp.Drivers

open Lib LinuxApp.Core Prog

variable {c c' : RpmsgCtx} {es : Exchanges} {ctx : Option RpmsgCtx} {ret : Int}

theorem ifOpen_some (h : c.isOpen = true) : ifOpen (some c) = some c := if_pos h

theorem ifOpen_closed (h : c.isOpen = false) : ifOpen (some c) = none :=
  if_neg (by simp [rpmsgIsOpen, h])

/-- An answer of the kernel to `r`, followed by a function of it. -/
theorem replay_sys {α : Type} {r : Syscall} {f : r.Answer → α} {x : α} :
    replay (sys r >>= fun a => pure (f a)) es = some x ↔ ∃ a, es = [⟨r, a⟩] ∧ f a = x := by
  rw [replay_map (S := Posix)]
  refine ⟨fun hy => ?_, fun hy => ?_⟩
  · obtain ⟨a, ha, hx⟩ := hy
    exact ⟨a, (replay_call (S := Posix)).mp ha, hx⟩
  · obtain ⟨a, ha, hx⟩ := hy
    exact ⟨a, (replay_call (S := Posix)).mpr ha, hx⟩

/-! ## Opening and closing -/

/-- Whatever `close` answers, the context is closed. -/
theorem close_open (h : c.isOpen = true) :
    replay c.close es = some c' ↔ ∃ a, es = [⟨.close c.fd, a⟩] ∧ { c with fd := -1 } = c' := by
  unfold RpmsgCtx.close
  rw [if_pos h]
  exact replay_sys

theorem close_closed (h : c.isOpen = false) : replay c.close es = some c' ↔ es = [] ∧ c = c' := by
  unfold RpmsgCtx.close
  rw [h]
  exact replay_pure

theorem rpmsgClose_iff :
    replay (rpmsgClose (some c)) es = some ctx ↔
      ∃ c', replay c.close es = some c' ∧ some c' = ctx :=
  replay_map

/-- An old descriptor is closed first; then the path is opened. -/
theorem rpmsgOpen_iff {path : Option CStr} :
    replay (rpmsgOpen (some c) path) es = some (ret, ctx) ↔
      ∃ es₁ c₁ a, replay c.close es₁ = some c₁ ∧
        es = es₁ ++ [⟨.openFile (choosePath c₁ path).path (oRdwr ||| oNonblock), a⟩] ∧
        ret = (openResult (choosePath c₁ path) a).1 ∧
        ctx = some (openResult (choosePath c₁ path) a).2 := by
  unfold rpmsgOpen
  simp only [replay_bind (p := c.close), replay_sys, Prod.mk.injEq]
  refine ⟨fun hx => ?_, fun hx => ?_⟩
  · obtain ⟨es₁, es₂, c₁, rfl, h1, a, rfl, rfl, rfl⟩ := hx
    exact ⟨es₁, c₁, a, h1, rfl, rfl, rfl⟩
  · obtain ⟨es₁, c₁, a, h1, rfl, rfl, rfl⟩ := hx
    exact ⟨es₁, _, c₁, rfl, h1, a, rfl, rfl, rfl⟩

/-! ## Polling -/

theorem rpmsgPollReady_open (h : c.isOpen = true) {t : Int} :
    replay (rpmsgPollReady (some c) t) es = some ret ↔
      ∃ a, es = [⟨.poll c.fd pollIn t, a⟩] ∧ pollResult a = ret := by
  unfold rpmsgPollReady
  rw [ifOpen_some h]
  exact replay_sys

theorem rpmsgPollReady_closed (h : c.isOpen = false) {t : Int} :
    replay (rpmsgPollReady (some c) t) es = some ret ↔ es = [] ∧ -einval = ret := by
  unfold rpmsgPollReady
  rw [ifOpen_closed h]
  exact replay_pure

/-! ## Writing -/

/-- The arguments pass the test `!rpmsg_is_open(ctx) || buf == NULL || len == 0`. -/
def Transfers (c : RpmsgCtx) (buf : Option (List UInt8)) (len : Nat) : Prop :=
  c.isOpen = true ∧ buf ≠ none ∧ len ≠ 0

theorem len_of_not_transfers {c₁ : RpmsgCtx} {b : List UInt8} {len : Nat}
    (h : ¬ Transfers c (some b) len) (hc : ifOpen (some c) = some c₁) : len = 0 := by
  by_contra hl
  refine h ⟨?_, by simp, hl⟩
  by_contra ho
  rw [ifOpen_closed (by simpa using ho)] at hc
  cases hc

theorem rpmsgWriteRaw_rejected {buf : Option (List UInt8)} {len : Nat}
    (h : ¬ Transfers c buf len) :
    replay (rpmsgWriteRaw (some c) buf len) es = some (ret, ctx) ↔
      es = [] ∧ ret = -einval ∧ ctx = some c := by
  unfold rpmsgWriteRaw
  have hp : replay (pure (-einval, some c) : Prog Posix (Int × Option RpmsgCtx)) es =
      some (ret, ctx) ↔ es = [] ∧ ret = -einval ∧ ctx = some c := by
    rw [replay_pure (S := Posix), Prod.mk.injEq, eq_comm (a := ret), eq_comm (a := ctx)]
  split
  · next c₁ b hc =>
    split
    · exact hp
    · next hl => exact absurd (len_of_not_transfers h hc) hl
  · exact hp

theorem rpmsgWriteRaw_open {b : List UInt8} {len : Nat} (h : c.isOpen = true) (hl : len ≠ 0) :
    replay (rpmsgWriteRaw (some c) (some b) len) es = some (ret, ctx) ↔
      ∃ a, es = [⟨.write c.fd (b.take len), a⟩] ∧ ret = (writeResult c a).1 ∧
        ctx = some (writeResult c a).2 := by
  unfold rpmsgWriteRaw
  rw [ifOpen_some h]
  simp only [hl, if_false, replay_sys, Prod.mk.injEq]
  refine ⟨fun hx => ?_, fun hx => ?_⟩
  · obtain ⟨a, rfl, rfl, rfl⟩ := hx
    exact ⟨a, rfl, rfl, rfl⟩
  · obtain ⟨a, rfl, rfl, rfl⟩ := hx
    exact ⟨a, rfl, rfl, rfl⟩

/-! ## Reading -/

theorem rpmsgReadRaw_rejected {buf buf' : Option (List UInt8)} {len : Nat} {t : Int}
    (h : ¬ Transfers c buf len) :
    replay (rpmsgReadRaw (some c) buf len t) es = some (ret, ctx, buf') ↔
      es = [] ∧ ret = -einval ∧ ctx = some c ∧ buf' = buf := by
  unfold rpmsgReadRaw
  have hp : replay (pure (-einval, some c, buf) :
      Prog Posix (Int × Option RpmsgCtx × Option (List UInt8))) es = some (ret, ctx, buf') ↔
      es = [] ∧ ret = -einval ∧ ctx = some c ∧ buf' = buf := by
    rw [replay_pure (S := Posix), Prod.mk.injEq, Prod.mk.injEq, eq_comm (a := ret),
      eq_comm (a := ctx), eq_comm (a := buf')]
  split
  · next c₁ b hc =>
    split
    · exact hp
    · next hl => exact absurd (len_of_not_transfers h hc) hl
  · exact hp

/-- The exchanges that let a read through: none without a timeout, else a poll that
finds data. -/
inductive Ready (c : RpmsgCtx) (t : Int) : Exchanges → Prop where
  | now : t = 0 → Ready c t []
  | polled (a : PollAnswer) : t ≠ 0 → 0 < pollResult a →
      Ready c t [⟨.poll c.fd pollIn t, a⟩]

/-- A read of `len` bytes into `buf` on an open context: the poll stops it, or it is
let through and `read` answers. -/
inductive Reads (c : RpmsgCtx) (buf : List UInt8) (len : Nat) (t : Int) :
    Exchanges → Int × RpmsgCtx × List UInt8 → Prop where
  | stopped (a : PollAnswer) : t ≠ 0 → pollResult a ≤ 0 →
      Reads c buf len t [⟨.poll c.fd pollIn t, a⟩] (pollResult a, c, buf)
  | through {es : Exchanges} (a : ReadAnswer len) : Ready c t es →
      Reads c buf len t (es ++ [⟨.read c.fd len, a⟩]) (readResult c buf a)

theorem readNow_iff {b : List UInt8} {len : Nat} {buf : Option (List UInt8)} :
    replay (readNow c b len) es = some (ret, ctx, buf) ↔
      ∃ a, es = [⟨.read c.fd len, a⟩] ∧ ret = (readResult c b a).1 ∧
        ctx = some (readResult c b a).2.1 ∧ buf = some (readResult c b a).2.2 := by
  unfold readNow
  rw [replay_sys]
  refine ⟨fun hx => ?_, fun hx => ?_⟩
  · obtain ⟨a, rfl, h⟩ := hx
    cases h
    exact ⟨a, rfl, rfl, rfl, rfl⟩
  · obtain ⟨a, rfl, rfl, rfl, rfl⟩ := hx
    exact ⟨a, rfl, rfl⟩

theorem rpmsgReadRaw_open {b : List UInt8} {len : Nat} {t : Int} {buf : Option (List UInt8)}
    (h : c.isOpen = true) (hl : len ≠ 0) :
    replay (rpmsgReadRaw (some c) (some b) len t) es = some (ret, ctx, buf) ↔
      ∃ out, Reads c b len t es out ∧ ret = out.1 ∧ ctx = some out.2.1 ∧ buf = some out.2.2 := by
  unfold rpmsgReadRaw
  rw [ifOpen_some h]
  simp only [hl, if_false]
  split
  · next ht =>
    rw [replay_bind (S := Posix)]
    refine ⟨fun hx => ?_, fun hx => ?_⟩
    · obtain ⟨es₁, es₂, r, rfl, h1, h2⟩ := hx
      obtain ⟨a, rfl, rfl⟩ := (rpmsgPollReady_open h).mp h1
      split at h2
      · next h0 =>
        obtain ⟨rfl, h2⟩ := (replay_pure (S := Posix)).mp h2
        cases h2
        exact ⟨_, .stopped a ht (by omega), h0.symm, rfl, rfl⟩
      · next h0 =>
        split at h2
        · next hneg =>
          obtain ⟨rfl, h2⟩ := (replay_pure (S := Posix)).mp h2
          cases h2
          exact ⟨_, .stopped a ht (by omega), rfl, rfl, rfl⟩
        · next hneg =>
          obtain ⟨x, rfl, rfl, rfl, rfl⟩ := readNow_iff.mp h2
          exact ⟨_, .through x (.polled a ht (by omega)), rfl, rfl, rfl⟩
    · obtain ⟨out, hr, rfl, rfl, rfl⟩ := hx
      cases hr with
      | stopped a _ ha =>
        refine ⟨_, [], pollResult a, (List.append_nil _).symm,
          (rpmsgPollReady_open h).mpr ⟨a, rfl, rfl⟩, ?_⟩
        split
        · next h0 => simp [replay_pure (S := Posix), h0]
        · next h0 => simp [replay_pure (S := Posix), show pollResult a < 0 by omega]
      | through x hready =>
        cases hready with
        | now h0 => exact absurd h0 ht
        | polled a _ ha =>
          refine ⟨_, _, pollResult a, rfl, (rpmsgPollReady_open h).mpr ⟨a, rfl, rfl⟩, ?_⟩
          rw [if_neg (by omega), if_neg (by omega), readNow_iff]
          exact ⟨x, rfl, rfl, rfl, rfl⟩
  · next ht =>
    rw [readNow_iff]
    refine ⟨fun hx => ?_, fun hx => ?_⟩
    · obtain ⟨a, rfl, rfl, rfl, rfl⟩ := hx
      exact ⟨_, .through a (.now (by omega)), rfl, rfl, rfl⟩
    · obtain ⟨out, hr, rfl, rfl, rfl⟩ := hx
      cases hr with
      | stopped a h0 _ => exact absurd h0 ht
      | through x hready =>
        cases hready with
        | now _ => exact ⟨x, rfl, rfl, rfl, rfl⟩
        | polled a h0 _ => exact absurd h0 ht

/-! ## Messages -/

theorem rpmsgSendMsg_open {m : AppMsg} (h : c.isOpen = true) :
    replay (rpmsgSendMsg (some c) (some m)) es = some (ret, ctx) ↔
      ∃ a, es = [⟨.write c.fd m.toList, a⟩] ∧ ret = sendRet (writeResult c a).1 ∧
        ctx = some (writeResult c a).2 := by
  have htake : m.toList.take sizeofAppMsg = m.toList := by
    rw [← m.length_toList, List.take_length]
  unfold rpmsgSendMsg
  rw [replay_map (S := Posix)]
  refine ⟨fun hx => ?_, fun hx => ?_⟩
  · obtain ⟨⟨r, ctx'⟩, h1, h2⟩ := hx
    rw [rpmsgWriteRaw_open h (by decide), htake] at h1
    obtain ⟨a, rfl, rfl, rfl⟩ := h1
    cases h2
    exact ⟨a, rfl, rfl, rfl⟩
  · obtain ⟨a, rfl, rfl, rfl⟩ := hx
    refine ⟨((writeResult c a).1, some (writeResult c a).2), ?_, rfl⟩
    rw [rpmsgWriteRaw_open h (by decide), htake]
    exact ⟨a, rfl, rfl, rfl⟩

theorem rpmsgSendMsg_rejected {m : Option AppMsg} (h : ¬ (c.isOpen = true ∧ m ≠ none)) :
    replay (rpmsgSendMsg (some c) m) es = some (ret, ctx) ↔
      es = [] ∧ ret = -einval ∧ ctx = some c := by
  unfold rpmsgSendMsg
  cases m with
  | none => simp [replay_pure (S := Posix), eq_comm]
  | some m =>
    have hno : ¬ Transfers c (some m.toList) sizeofAppMsg := fun ht => h ⟨ht.1, by simp⟩
    simp only [replay_map (S := Posix), Prod.exists, rpmsgWriteRaw_rejected hno, Prod.mk.injEq]
    refine ⟨fun hx => ?_, fun hx => ?_⟩
    · obtain ⟨r, x, ⟨rfl, rfl, rfl⟩, rfl, rfl⟩ := hx
      exact ⟨rfl, rfl, rfl⟩
    · obtain ⟨rfl, rfl, rfl⟩ := hx
      exact ⟨_, _, ⟨rfl, rfl, rfl⟩, rfl, rfl⟩

theorem rpmsgRecvMsg_open {m : AppMsg} {msg : Option AppMsg} {t : Int} (h : c.isOpen = true) :
    replay (rpmsgRecvMsg (some c) (some m) t) es = some (ret, ctx, msg) ↔
      ∃ out, Reads c m.toList sizeofAppMsg t es out ∧ ret = recvRet out.1 ∧
        ctx = some out.2.1 ∧ msg = some (AppMsg.ofList out.2.2) := by
  unfold rpmsgRecvMsg
  simp only [replay_map (S := Posix), Prod.exists,
    rpmsgReadRaw_open h (show sizeofAppMsg ≠ 0 by decide), Prod.mk.injEq]
  refine ⟨fun hx => ?_, fun hx => ?_⟩
  · obtain ⟨_, _, _, ⟨_, _, _, hr, rfl, rfl, rfl⟩, rfl, rfl, rfl⟩ := hx
    exact ⟨_, _, _, hr, rfl, rfl, rfl⟩
  · obtain ⟨r, x, y, hr, rfl, rfl, rfl⟩ := hx
    exact ⟨r, some x, some y, ⟨r, x, y, hr, rfl, rfl, rfl⟩, rfl, rfl, rfl⟩

theorem rpmsgRecvMsg_rejected {m msg : Option AppMsg} {t : Int}
    (h : ¬ (c.isOpen = true ∧ m ≠ none)) :
    replay (rpmsgRecvMsg (some c) m t) es = some (ret, ctx, msg) ↔
      es = [] ∧ ret = -einval ∧ ctx = some c ∧ msg = m := by
  unfold rpmsgRecvMsg
  cases m with
  | none => simp [replay_pure (S := Posix), eq_comm]
  | some m =>
    have hno : ¬ Transfers c (some m.toList) sizeofAppMsg := fun ht => h ⟨ht.1, by simp⟩
    simp only [replay_map (S := Posix), Prod.exists, rpmsgReadRaw_rejected hno, Prod.mk.injEq]
    refine ⟨fun hx => ?_, fun hx => ?_⟩
    · obtain ⟨r, x, y, ⟨rfl, rfl, rfl, rfl⟩, rfl, rfl, rfl⟩ := hx
      exact ⟨rfl, rfl, rfl, by simp⟩
    · obtain ⟨rfl, rfl, rfl, rfl⟩ := hx
      exact ⟨_, _, _, ⟨rfl, rfl, rfl, rfl⟩, rfl, rfl, by simp⟩

end LinuxApp.Drivers
