import LinuxApp.Drivers.Framing

/-!
# `rpmsg_recv_msg` on a device of datagrams

`device` is the character device as R5 fills it: datagrams of any length, each
`read` removing the first one whole and copying what fits, `EAGAIN` when there is
none. `RecvTells` is what a caller would like to read off the return code.

The code sees only the number of bytes copied. That number is 264 for a longer
datagram too, and 0 for an empty one, which is also what `rpmsg_read_raw` returns
for "nothing there". `rpmsgRecvMsg_tells_iff`: the return code tells the truth
exactly when a read that is reached finds nothing or a datagram of 1 to 264 bytes.
-/

namespace LinuxApp.Drivers

open Lib LinuxApp.Core
open Prog (replay)

/-- The pending datagrams after one exchange. -/
def device (pending : List (List UInt8)) : Exchange Posix → Option (List (List UInt8))
  | ⟨.read _ len, .data bytes _⟩ =>
    match pending with
    | d :: rest => if bytes = d.take len then some rest else none
    | [] => none
  | ⟨.read _ _, .failed e⟩ => if pending = [] ∧ e.val = eagain then some pending else none
  | ⟨.poll _ _ _, _⟩ => some pending
  | _ => none

/-- Return 0 for a datagram of exactly `sizeof(app_msg_t)` in `*msg`, `-ETIMEDOUT` only
with nothing removed, `-EIO` for any other datagram removed. -/
def RecvTells (ret : Int) (msg : AppMsg) (pending pending' : List (List UInt8)) : Prop :=
  (ret = 0 ↔ ∃ d, pending = d :: pending' ∧ d.length = sizeofAppMsg ∧ msg.toList = d) ∧
  (ret = -etimedout → pending' = pending) ∧
  ∀ d, pending = d :: pending' → d.length ≠ sizeofAppMsg → ret = -eio

/-- Every poll of the call is answered with `a`. -/
def PollsAnswered (a : PollAnswer) (es : Exchanges) : Prop :=
  ∀ fd ev t x, (⟨.poll fd ev t, x⟩ : Exchange Posix) ∈ es → x = a

/-- Nothing pending, or a first datagram of 1 to 264 bytes. -/
def HeadFits (pending : List (List UInt8)) : Prop :=
  ∀ d rest, pending = d :: rest → 0 < d.length ∧ d.length ≤ sizeofAppMsg

/-- The call gets to `read`. -/
def ReachesRead (t : Int) (poll : PollAnswer) : Prop := t = 0 ∨ 0 < pollResult poll

theorem cons_ne_self {α : Type} (d : α) (l : List α) : l ≠ d :: l :=
  fun h => by simpa using congrArg List.length h

/-- Nothing removed: the code must not claim a message, and does not. -/
theorem tells_kept {ret : Int} {msg : AppMsg} {pending : List (List UInt8)} (h : ret ≠ 0) :
    RecvTells ret msg pending pending := by
  refine ⟨⟨fun h0 => absurd h0 h, ?_⟩, fun _ => rfl, ?_⟩
  · rintro ⟨d, hd, -⟩
    exact absurd hd (cons_ne_self d pending)
  · intro d hd
    exact absurd hd (cons_ne_self d pending)

/-- One datagram removed: the code tells the truth about it when it has 1 to 264 bytes. -/
theorem tells_removed {d old : List UInt8} (rest : List (List UInt8))
    (ho : old.length = sizeofAppMsg) :
    RecvTells (recvRet (d.take sizeofAppMsg).length)
      (AppMsg.ofList (store old (d.take sizeofAppMsg))) (d :: rest) rest ↔
    0 < d.length ∧ d.length ≤ sizeofAppMsg := by
  have hs : 0 < sizeofAppMsg := by decide
  refine ⟨fun hx => ?_, fun hx => ?_⟩
  · obtain ⟨hzero, htimeout, -⟩ := hx
    refine ⟨?_, ?_⟩
    · by_contra hempty
      have hlen : d.length = 0 := by omega
      have hret : recvRet (d.take sizeofAppMsg).length = -etimedout := by
        rw [List.length_take, hlen]; rfl
      exact cons_ne_self d rest (htimeout hret)
    · by_contra hlong
      have hret : recvRet (d.take sizeofAppMsg).length = 0 := by
        rw [recvRet_zero, List.length_take, Nat.min_eq_left (by omega)]
      obtain ⟨_, ⟨⟩, hlen, -⟩ := hzero.mp hret
      omega
  · obtain ⟨hpos, hle⟩ := hx
    rw [List.take_of_length_le hle]
    refine ⟨⟨?_, ?_⟩, ?_, ?_⟩
    · intro hret
      have hlen : d.length = sizeofAppMsg := by exact_mod_cast recvRet_zero.mp hret
      refine ⟨d, rfl, hlen, ?_⟩
      rw [store_whole (hlen.trans ho.symm), AppMsg.toList_ofList hlen]
    · rintro ⟨_, ⟨⟩, hlen, -⟩
      rw [recvRet_zero, hlen]
    · intro hret
      unfold recvRet etimedout eio at hret
      split at hret
      · omega
      · rw [if_neg (by omega), if_neg (by omega)] at hret
        omega
    · rintro _ ⟨⟩ hne
      unfold recvRet
      rw [if_neg (by omega), if_neg (by omega), if_neg (by omega)]

variable {c : RpmsgCtx} {es : Exchanges} {poll : PollAnswer} {t : Int}

/-- The read of the call, once it is reached. -/
theorem tells_read {old : AppMsg} {a : ReadAnswer sizeofAppMsg}
    {pending pending' : List (List UInt8)}
    (h : device pending ⟨.read c.fd sizeofAppMsg, a⟩ = some pending') :
    RecvTells (recvRet (readResult c old.toList a).1)
      (AppMsg.ofList (readResult c old.toList a).2.2) pending pending' ↔ HeadFits pending := by
  cases a with
  | failed e =>
    simp only [device] at h
    split at h
    · next he =>
      obtain ⟨rfl, he⟩ := he
      cases h
      simp only [readResult, he, if_true]
      exact ⟨fun _ => by rintro _ _ ⟨⟩, fun _ => tells_kept (recvRet_stopped (Int.le_refl 0))⟩
    · cases h
  | data bytes hfits =>
    cases pending with
    | nil => cases h
    | cons d rest =>
      simp only [device] at h
      split at h
      · next hb =>
        cases h
        subst hb
        simp only [readResult, ofUnsigned_length hfits]
        rw [tells_removed _ old.length_toList]
        constructor
        · rintro h _ _ ⟨⟩
          exact h
        · intro h
          exact h d _ rfl
      · cases h

theorem ready_device (h : Ready c t es) (pending : List (List UInt8)) :
    serve device pending es = some pending := by
  cases h with
  | now _ => rfl
  | polled a _ _ => rfl

/-- The context after a read of `n` bytes. -/
def afterRead (c : RpmsgCtx) (n : Nat) : RpmsgCtx :=
  if n > 0 then { c with rxCount := c.rxCount + 1 } else c

/-- Without a timeout the call takes the first datagram, whatever its length. -/
theorem recv_head (ho : c.isOpen = true) (old : AppMsg) (d : List UInt8)
    (rest : List (List UInt8)) :
    ∃ es, PollsAnswered .timeout es ∧ serve device (d :: rest) es = some rest ∧
      replay (rpmsgRecvMsg (some c) (some old) 0) es =
        some (recvRet (d.take sizeofAppMsg).length, some (afterRead c (d.take sizeofAppMsg).length),
          some (AppMsg.ofList (store old.toList (d.take sizeofAppMsg)))) := by
  have hfits : (d.take sizeofAppMsg).length ≤ sizeofAppMsg := List.length_take_le _ _
  refine ⟨[] ++ [⟨.read c.fd sizeofAppMsg, .data (d.take sizeofAppMsg) hfits⟩], ?_, ?_, ?_⟩
  · intro fd ev t x hx
    cases List.mem_singleton.mp hx
  · simp [device]
  · rw [rpmsgRecvMsg_open ho]
    refine ⟨_, .through _ (.now rfl), ?_, rfl, rfl⟩
    simp only [readResult, ofUnsigned_length hfits]

/-- **What `rpmsg_recv_msg` tells.** On an open context, for every queue of datagrams,
timeout and answer of `poll`: the return code tells what happened to the channel if
and only if a read that is reached finds no datagram or one of 1 to 264 bytes. -/
theorem rpmsgRecvMsg_tells_iff {ret : Int} {ctx : Option RpmsgCtx} {old msg : AppMsg}
    {pending pending' : List (List UInt8)} (ho : c.isOpen = true)
    (hpoll : PollsAnswered poll es)
    (h : replay (rpmsgRecvMsg (some c) (some old) t) es = some (ret, ctx, some msg))
    (hdev : serve device pending es = some pending') :
    RecvTells ret msg pending pending' ↔ (ReachesRead t poll → HeadFits pending) := by
  obtain ⟨out, hr, rfl, -, hm⟩ := (rpmsgRecvMsg_open ho).mp h
  obtain rfl := Option.some.inj hm
  cases hr with
  | stopped a ht ha =>
    obtain rfl := hpoll _ _ _ _ (List.mem_singleton_self _)
    cases hdev
    refine ⟨fun _ hreach => ?_, fun _ => tells_kept (recvRet_stopped ha)⟩
    rcases hreach with h0 | hpos
    · exact absurd h0 ht
    · omega
  | through a hready =>
    have hreach : ReachesRead t poll := by
      cases hready with
      | now h0 => exact .inl h0
      | polled b _ hb =>
        obtain rfl := hpoll _ _ _ _ (List.mem_cons_self ..)
        exact .inr hb
    rw [serve_append, ready_device hready, Option.bind_some, serve_single] at hdev
    rw [tells_read hdev]
    exact ⟨fun hfits _ => hfits, fun hfits => hfits hreach⟩

/-- A whole message: the code returns 0 and tells the truth. -/
theorem rpmsgRecvMsg_tells_whole : ∃ (ret : Int) (msg : AppMsg),
    RecvTells ret msg [(default : AppMsg).toList] [] := by
  have ho : (⟨3, .replicate _ 0, 0, 0, 0⟩ : RpmsgCtx).isOpen = true := rfl
  obtain ⟨es, hpoll, hdev, hrecv⟩ := recv_head ho default (default : AppMsg).toList []
  refine ⟨_, _, (rpmsgRecvMsg_tells_iff ho hpoll hrecv hdev).mpr fun _ => ?_⟩
  rintro _ _ ⟨⟩
  exact ⟨by rw [AppMsg.length_toList]; decide, by rw [AppMsg.length_toList]⟩

/-- A datagram of 300 bytes is clipped to 264 and taken for a message. -/
theorem rpmsgRecvMsg_clipped : ∃ (c : RpmsgCtx) (es : Exchanges) (ctx : Option RpmsgCtx)
    (msg : AppMsg), c.isOpen = true ∧
    replay (rpmsgRecvMsg (some c) (some default) 0) es = some (0, ctx, some msg) ∧
    serve device [List.replicate 300 7] es = some [] ∧
    ¬ RecvTells 0 msg [List.replicate 300 7] [] := by
  have ho : (⟨3, .replicate _ 0, 0, 0, 0⟩ : RpmsgCtx).isOpen = true := rfl
  obtain ⟨es, -, hdev, hrecv⟩ := recv_head ho default (List.replicate 300 7) []
  have hret : recvRet ((List.replicate 300 (7 : UInt8)).take sizeofAppMsg).length = 0 := by
    rw [recvRet_zero, List.length_take, List.length_replicate]; rfl
  have htells := tells_removed (d := List.replicate 300 7) [] (default : AppMsg).length_toList
  rw [hret] at hrecv htells
  refine ⟨_, es, _, _, ho, hrecv, hdev, fun h => ?_⟩
  have hle := (htells.mp h).2
  rw [List.length_replicate] at hle
  exact absurd hle (by decide)

end LinuxApp.Drivers
