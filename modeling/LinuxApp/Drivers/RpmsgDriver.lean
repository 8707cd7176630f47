import LinuxApp.Core.DataTypes
import LinuxApp.Drivers.Posix

/-!
# `drivers/rpmsg_driver.c`

The RPMsg channel context and the functions on it, as programs over the system
calls of `Posix`. A pointer argument is an `Option` (NULL is `none`); a function
that changes the context or a buffer returns the new value. `rpmsgIsOpen` is the
guard of every transfer: `ifOpen` is that guard followed by the dereference.

A C string argument is a `CStr`, its bytes before the NUL. `RpmsgCtx.path` is what
`strlen` and `open` read from `dev_path`: the bytes before its first NUL.
-/

namespace LinuxApp.Drivers

open Lib LinuxApp.Core

/-- A NUL-terminated string: the bytes before the NUL. -/
structure CStr where
  bytes : List UInt8
  noNul : 0 ∉ bytes
  deriving DecidableEq

/-- `DEFAULT_DEV_PATH`, "/dev/rpmsg0" -/
def defaultDevPath : CStr := ⟨[47, 100, 101, 118, 47, 114, 112, 109, 115, 103, 48], by decide⟩

example : defaultDevPath.bytes = "/dev/rpmsg0".toList.map fun c => c.toNat.toUInt8 := by decide

/-- `sizeof(ctx->dev_path)` -/
abbrev sizeofDevPath : Nat := 64

/-- `rpmsg_ctx_t` -/
structure RpmsgCtx where
  fd : Int
  devPath : Vector UInt8 sizeofDevPath
  txCount : UInt32
  rxCount : UInt32
  errCount : UInt32
  deriving DecidableEq

/-- `strncpy(dst, src, len)`: pads with NULs, and leaves the bytes from `len` on. -/
def strncpy {n : Nat} (dst : Vector UInt8 n) (src : CStr) (len : Nat) : Vector UInt8 n :=
  Vector.ofFn fun i => if i < len then src.bytes.getD i 0 else dst[i]

namespace RpmsgCtx

/-- `strncpy(ctx->dev_path, src, sizeof(ctx->dev_path) - 1)` and the NUL after it. -/
def setPath (c : RpmsgCtx) (src : CStr) : RpmsgCtx :=
  { c with devPath := (strncpy c.devPath src (sizeofDevPath - 1)).set (sizeofDevPath - 1) 0 }

/-- The C string in `dev_path`. -/
def path (c : RpmsgCtx) : List UInt8 := c.devPath.toList.takeWhile (· ≠ 0)

/-- `ctx->fd >= 0` -/
def isOpen (c : RpmsgCtx) : Bool := decide (0 ≤ c.fd)

/-- `rpmsg_close` after its NULL test. -/
def close (c : RpmsgCtx) : Prog Posix RpmsgCtx :=
  if c.isOpen then do
    let _ ← sys (.close c.fd)
    pure { c with fd := -1 }
  else pure c

end RpmsgCtx

/-- `rpmsg_ctx_init` -/
def rpmsgCtxInit (ctx : Option RpmsgCtx) : Option RpmsgCtx :=
  ctx.map fun c =>
    { c.setPath defaultDevPath with fd := -1, txCount := 0, rxCount := 0, errCount := 0 }

/-- `rpmsg_close` -/
def rpmsgClose (ctx : Option RpmsgCtx) : Prog Posix (Option RpmsgCtx) :=
  match ctx with
  | none => pure none
  | some c => do
    let c ← c.close
    pure (some c)

/-- The choice of `dev_path` in `rpmsg_open`. -/
def choosePath (c : RpmsgCtx) (devPath : Option CStr) : RpmsgCtx :=
  match devPath with
  | some p =>
    if p.bytes.length > 0 then c.setPath p
    else if c.path.length = 0 then c.setPath defaultDevPath
    else c
  | none => if c.path.length = 0 then c.setPath defaultDevPath else c

/-- What `rpmsg_open` does with the answer of `open`. -/
def openResult (c : RpmsgCtx) : OpenAnswer → Int × RpmsgCtx
  | .failed e => (-e.val, { c with errCount := c.errCount + 1 })
  | .fd n => (0, { c with fd := n })

/-- `rpmsg_open` -/
def rpmsgOpen (ctx : Option RpmsgCtx) (devPath : Option CStr) :
    Prog Posix (Int × Option RpmsgCtx) :=
  match ctx with
  | none => pure (-einval, none)
  | some c => do
    let c ← c.close
    let c := choosePath c devPath
    let a ← sys (.openFile c.path (oRdwr ||| oNonblock))
    let (ret, c) := openResult c a
    pure (ret, some c)

/-- `rpmsg_is_open` -/
def rpmsgIsOpen (ctx : Option RpmsgCtx) : Bool :=
  match ctx with
  | none => false
  | some c => c.isOpen

/-- The context, if `rpmsg_is_open` holds of it. -/
def ifOpen (ctx : Option RpmsgCtx) : Option RpmsgCtx := if rpmsgIsOpen ctx then ctx else none

/-- What `rpmsg_poll_ready` returns on an answer of `poll`. -/
def pollResult : PollAnswer → Int
  | .failed e => -e.val
  | .timeout => 0
  | .ready revents =>
    if revents &&& (pollErr ||| pollHup ||| pollNval) ≠ 0 then -eio
    else if revents &&& pollIn ≠ 0 then 1
    else 0

/-- `rpmsg_poll_ready` -/
def rpmsgPollReady (ctx : Option RpmsgCtx) (timeoutMs : Int) : Prog Posix Int :=
  match ifOpen ctx with
  | none => pure (-einval)
  | some c => do
    let a ← sys (.poll c.fd pollIn timeoutMs)
    pure (pollResult a)

/-- What `rpmsg_write_raw` does with the answer of `write`. -/
def writeResult (c : RpmsgCtx) {len : Nat} : WriteAnswer len → Int × RpmsgCtx
  | .failed e => (-e.val, { c with errCount := c.errCount + 1 })
  | .count n _ => (ofUnsigned n, { c with txCount := c.txCount + 1 })

/-- `rpmsg_write_raw` -/
def rpmsgWriteRaw (ctx : Option RpmsgCtx) (buf : Option (List UInt8)) (len : Nat) :
    Prog Posix (Int × Option RpmsgCtx) :=
  match ifOpen ctx, buf with
  | some c, some b =>
    if len = 0 then pure (-einval, ctx)
    else do
      let a ← sys (.write c.fd (b.take len))
      let (ret, c) := writeResult c a
      pure (ret, some c)
  | _, _ => pure (-einval, ctx)

/-- The buffer after `read` has stored `bytes` at its start. -/
def store (buf bytes : List UInt8) : List UInt8 := bytes ++ buf.drop bytes.length

/-- What `rpmsg_read_raw` does with the answer of `read`. -/
def readResult (c : RpmsgCtx) (buf : List UInt8) {len : Nat} :
    ReadAnswer len → Int × RpmsgCtx × List UInt8
  | .failed e =>
    if e.val = eagain then (0, c, buf)
    else (-e.val, { c with errCount := c.errCount + 1 }, buf)
  | .data bytes _ =>
    (ofUnsigned bytes.length,
      if bytes.length > 0 then { c with rxCount := c.rxCount + 1 } else c,
      store buf bytes)

/-- The read of `rpmsg_read_raw`, once nothing stands in its way. -/
def readNow (c : RpmsgCtx) (buf : List UInt8) (len : Nat) :
    Prog Posix (Int × Option RpmsgCtx × Option (List UInt8)) := do
  let a ← sys (.read c.fd len)
  let (ret, c, buf) := readResult c buf a
  pure (ret, some c, some buf)

/-- `rpmsg_read_raw` -/
def rpmsgReadRaw (ctx : Option RpmsgCtx) (buf : Option (List UInt8)) (len : Nat)
    (timeoutMs : Int) : Prog Posix (Int × Option RpmsgCtx × Option (List UInt8)) :=
  match ifOpen ctx, buf with
  | some c, some b =>
    if len = 0 then pure (-einval, ctx, buf)
    else if timeoutMs ≠ 0 then do
      let ready ← rpmsgPollReady ctx timeoutMs
      if ready = 0 then pure (0, ctx, buf)
      else if ready < 0 then pure (ready, ctx, buf)
      else readNow c b len
    else readNow c b len
  | _, _ => pure (-einval, ctx, buf)

/-- How `rpmsg_send_msg` reads the result of `rpmsg_write_raw`. -/
def sendRet (ret : Int) : Int :=
  if ret = sizeofAppMsg then 0
  else if ret < 0 then ret
  else -eio

/-- `rpmsg_send_msg` -/
def rpmsgSendMsg (ctx : Option RpmsgCtx) (msg : Option AppMsg) :
    Prog Posix (Int × Option RpmsgCtx) :=
  match msg with
  | none => pure (-einval, ctx)
  | some m => do
    let (ret, ctx) ← rpmsgWriteRaw ctx (some m.toList) sizeofAppMsg
    pure (sendRet ret, ctx)

/-- How `rpmsg_recv_msg` reads the result of `rpmsg_read_raw`. -/
def recvRet (ret : Int) : Int :=
  if ret = sizeofAppMsg then 0
  else if ret = 0 then -etimedout
  else if ret < 0 then ret
  else -eio

/-- `rpmsg_recv_msg`; `msg` is the caller's memory. -/
def rpmsgRecvMsg (ctx : Option RpmsgCtx) (msg : Option AppMsg) (timeoutMs : Int) :
    Prog Posix (Int × Option RpmsgCtx × Option AppMsg) :=
  match msg with
  | none => pure (-einval, ctx, none)
  | some m => do
    let (ret, ctx, buf) ← rpmsgReadRaw ctx (some m.toList) sizeofAppMsg timeoutMs
    pure (recvRet ret, ctx, buf.map AppMsg.ofList)

/-- `rpmsg_get_stats`; `tx`, `rx` and `err` are the caller's variables, `none` where the
pointer is NULL. -/
def rpmsgGetStats (ctx : Option RpmsgCtx) (tx rx err : Option UInt32) :
    Option UInt32 × Option UInt32 × Option UInt32 :=
  match ctx with
  | none => (tx, rx, err)
  | some c => (tx.map fun _ => c.txCount, rx.map fun _ => c.rxCount, err.map fun _ => c.errCount)

/-- `rpmsg_reset_stats` -/
def rpmsgResetStats (ctx : Option RpmsgCtx) : Option RpmsgCtx :=
  ctx.map fun c => { c with txCount := 0, rxCount := 0, errCount := 0 }

end LinuxApp.Drivers
