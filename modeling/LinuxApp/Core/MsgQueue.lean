import LinuxApp.Core.DataTypes
import LinuxApp.Lib.CInt
import LinuxApp.Lib.Fifo
import LinuxApp.Lib.Lifetime
import LinuxApp.Lib.Ring

/-!
# `core/msq_queue.c`

`msg_queue_t` and its four functions, run by one thread at a time. The two
critical sections are cut at the points where the concurrent model
(`QueueThreads.lean`) interleaves: the test of `count` (`full`, `empty`) and the
copy with its updates (`copyIn`, `copyOut`). `none` from a copy is undefined
behaviour: an index outside `buffer` or an `int` overflow. Arithmetic on
`QUEUE_MAX_SIZE`, an unsigned constant, is unsigned as in C.

`MsgQueue.Ok` is the representation invariant and `contents` the abstraction, the
`count` messages from `head` on. On an `Ok` queue each copy succeeds and acts on
`contents` as the bounded FIFO does (`Ok.copyIn`, `Ok.copyOut`);
`msgQueue_refines_fifo` says so of whole runs.
-/

namespace LinuxApp.Core

open Lib

/-- `msg_queue_t` without its two pthread objects. -/
structure MsgQueue where
  buffer : Vector AppMsg queueMaxSize
  head : Int
  tail : Int
  count : Int

instance : Inhabited MsgQueue := ⟨⟨Vector.replicate _ default, 0, 0, 0⟩⟩

/-- The pthread objects of a `msg_queue_t`. -/
inductive QueuePart where
  | lock
  | cond
  deriving DecidableEq

/-- How a call ends without returning. -/
inductive Fault where
  | undefined
  /-- Asleep in `pthread_cond_wait` with nobody left to signal. -/
  | blocks
  deriving DecidableEq

namespace MsgQueue

/-- The assignments of `msg_queue_init`. -/
def clear (q : MsgQueue) : MsgQueue := { q with head := 0, tail := 0, count := 0 }

/-- `q->count >= QUEUE_MAX_SIZE`: the constant is unsigned, so `count` is converted. -/
def full (q : MsgQueue) : Bool := decide (queueMaxSize ≤ toUnsigned q.count)

/-- `q->count == 0` -/
def empty (q : MsgQueue) : Bool := decide (q.count = 0)

/-- An index into `buffer`; any other is undefined. -/
def slot (i : Int) : Option (Fin queueMaxSize) :=
  if h : 0 ≤ i ∧ i < queueMaxSize then some ⟨i.toNat, by omega⟩ else none

/-- `(i + 1) % QUEUE_MAX_SIZE`, stored in an `int`. -/
def advance (i : Int) : Option Int :=
  (addInt i 1).map fun j => ofUnsigned (toUnsigned j % queueMaxSize)

/-- `q->buffer[q->tail] = *msg; q->tail = (q->tail + 1) % QUEUE_MAX_SIZE; q->count++;` -/
def copyIn (q : MsgQueue) (m : AppMsg) : Option MsgQueue := do
  let i ← slot q.tail
  let tail ← advance q.tail
  let count ← addInt q.count 1
  some { q with buffer := q.buffer.set i m, tail, count }

/-- `*msg = q->buffer[q->head]; q->head = (q->head + 1) % QUEUE_MAX_SIZE; q->count--;` -/
def copyOut (q : MsgQueue) : Option (AppMsg × MsgQueue) := do
  let i ← slot q.head
  let head ← advance q.head
  let count ← addInt q.count (-1)
  some (q.buffer[i], { q with head, count })

end MsgQueue

/-- `msg_queue_init`. `lockInit` and `condInit` are what `pthread_mutex_init` and
`pthread_cond_init` return; the list is the pthread objects initialised and destroyed. -/
def msgQueueInit (q : Option MsgQueue) (lockInit condInit : Int) :
    Int × Option MsgQueue × List (QueuePart × Lifetime.Op) :=
  match q with
  | none => (-einval, none, [])
  | some q =>
    if lockInit ≠ 0 then (-1, some q.clear, [])
    else if condInit ≠ 0 then (-1, some q.clear, [(.lock, .acquire), (.lock, .release)])
    else (0, some q.clear, [(.lock, .acquire), (.cond, .acquire)])

/-- `msg_queue_push` -/
def msgQueuePush (q : Option MsgQueue) (msg : Option AppMsg) :
    Except Fault (Int × Option MsgQueue) :=
  match q, msg with
  | some q, some m =>
    if q.full then .ok (-enospc, some q)
    else
      match q.copyIn m with
      | some q' => .ok (0, some q')
      | none => .error .undefined
  | q, _ => .ok (-einval, q)

/-- `msg_queue_pop`; `msg` is the caller's memory, overwritten on success. -/
def msgQueuePop (q : Option MsgQueue) (msg : Option AppMsg) :
    Except Fault (Int × Option AppMsg × Option MsgQueue) :=
  match q, msg with
  | some q, some _ =>
    if q.empty then .error .blocks
    else
      match q.copyOut with
      | some (m, q') => .ok (0, some m, some q')
      | none => .error .undefined
  | q, msg => .ok (-einval, msg, q)

/-- `msg_queue_destroy` -/
def msgQueueDestroy (q : Option MsgQueue) : List (QueuePart × Lifetime.Op) :=
  match q with
  | none => []
  | some _ => [(.lock, .release), (.cond, .release)]

/-! ## The representation invariant -/

namespace MsgQueue

/-- The queued messages, oldest first. -/
def contents (q : MsgQueue) : List AppMsg := Ring.window q.buffer q.head.toNat q.count.toNat

structure Ok (q : MsgQueue) : Prop where
  head : 0 ≤ q.head ∧ q.head < queueMaxSize
  tail : 0 ≤ q.tail ∧ q.tail < queueMaxSize
  count : 0 ≤ q.count ∧ q.count ≤ queueMaxSize
  link : q.tail = (q.head + q.count) % queueMaxSize

theorem queueMaxSize_eq : (queueMaxSize : Int) = 100 := rfl

@[simp] theorem contents_clear (q : MsgQueue) : q.clear.contents = [] := rfl

theorem ok_clear (q : MsgQueue) : q.clear.Ok := by
  constructor <;> simp [clear, queueMaxSize]

theorem Ok.length_contents {q : MsgQueue} (h : q.Ok) : (q.contents.length : Int) = q.count := by
  have := h.count
  simp [contents, this.1]

theorem Ok.full_iff {q : MsgQueue} (h : q.Ok) : q.full = true ↔ q.count = queueMaxSize := by
  have hc := h.count
  have hu := toUnsigned_of_nonneg hc.1 (by rw [queueMaxSize_eq] at hc; omega)
  simp only [full, decide_eq_true_eq]
  omega

theorem slot_eq {i : Int} (h : 0 ≤ i ∧ i < queueMaxSize) :
    slot i = some (Fin.ofNat queueMaxSize i.toNat) := by
  rw [slot, dif_pos h]
  congr 1
  exact Fin.ext (Nat.mod_eq_of_lt (by omega)).symm

theorem advance_eq {i : Int} (h : 0 ≤ i ∧ i < queueMaxSize) :
    advance i = some ((i + 1) % queueMaxSize) := by
  have hq := queueMaxSize_eq
  have hin : InInt (i + 1) := by unfold InInt; omega
  rw [advance, addInt_eq hin, Option.map_some, addMod h.1 (by omega) (by decide) (by decide)]

theorem Ok.copyIn_eq {q : MsgQueue} (h : q.Ok) (m : AppMsg) (hc : q.count < queueMaxSize) :
    q.copyIn m = some { q with
      buffer := q.buffer.set (Fin.ofNat queueMaxSize q.tail.toNat) m
      tail := (q.tail + 1) % queueMaxSize
      count := q.count + 1 } := by
  have hq := queueMaxSize_eq
  have h0 := h.count
  have hin : InInt (q.count + 1) := by unfold InInt; omega
  simp [copyIn, slot_eq h.tail, advance_eq h.tail, addInt_eq hin]

theorem Ok.copyOut_eq {q : MsgQueue} (h : q.Ok) (hc : 0 < q.count) :
    q.copyOut = some (q.buffer[Fin.ofNat queueMaxSize q.head.toNat],
      { q with head := (q.head + 1) % queueMaxSize, count := q.count - 1 }) := by
  have hq := queueMaxSize_eq
  have h0 := h.count
  have hin : InInt (q.count + -1) := by unfold InInt; omega
  simp [copyOut, slot_eq h.head, advance_eq h.head, addInt_eq hin, Int.sub_eq_add_neg]

/-- What `copyIn` does to an `Ok` queue with room. -/
theorem Ok.copyIn {q : MsgQueue} (h : q.Ok) (m : AppMsg) (hc : q.count < queueMaxSize) :
    ∃ q', q.copyIn m = some q' ∧ q'.Ok ∧ q'.contents = q.contents ++ [m] ∧
      q'.count = q.count + 1 := by
  have heq := h.copyIn_eq m hc
  obtain ⟨hhead, htail, hcount, hlink⟩ := h
  rw [queueMaxSize_eq] at hhead htail hcount hlink hc
  refine ⟨_, heq, ⟨hhead, ?_, ?_, ?_⟩, ?_, rfl⟩
  · simp only [queueMaxSize_eq]; omega
  · simp only [queueMaxSize_eq]; omega
  · simp only [queueMaxSize_eq]; omega
  · have hslot : q.tail.toNat % queueMaxSize = (q.head.toNat + q.count.toNat) % queueMaxSize := by
      simp only [queueMaxSize]; omega
    have hsucc : (q.count + 1).toNat = q.count.toNat + 1 := by omega
    simp only [contents, Fin.ofNat, hslot, hsucc]
    exact Ring.window_push q.buffer m (by simp only [queueMaxSize]; omega) _

/-- What `copyOut` does to an `Ok` queue that is not empty. -/
theorem Ok.copyOut {q : MsgQueue} (h : q.Ok) (hc : 0 < q.count) :
    ∃ m q', q.copyOut = some (m, q') ∧ q'.Ok ∧ q.contents = m :: q'.contents ∧
      q'.count = q.count - 1 := by
  have heq := h.copyOut_eq hc
  obtain ⟨hhead, htail, hcount, hlink⟩ := h
  rw [queueMaxSize_eq] at hhead hcount hlink
  refine ⟨_, _, heq, ⟨?_, htail, ?_, ?_⟩, ?_, rfl⟩
  · simp only [queueMaxSize_eq]; omega
  · simp only [queueMaxSize_eq]; omega
  · simp only [queueMaxSize_eq]; omega
  · have hsucc : q.count.toNat = (q.count - 1).toNat + 1 := by omega
    have hadv : ((q.head + 1) % queueMaxSize).toNat = (q.head.toNat + 1) % queueMaxSize := by
      simp only [queueMaxSize_eq]
      simp only [queueMaxSize]
      omega
    simp only [contents, hadv]
    rw [hsucc]
    exact Ring.window_pop q.buffer _ _

end MsgQueue

/-! ## Completed calls and the bounded FIFO -/

/-- A completed call with its message and return code. -/
inductive Call where
  | push (m : AppMsg) (ret : Int)
  | pop (m : AppMsg) (ret : Int)
  deriving DecidableEq

/-- The FIFO operation a call stands for. -/
def Call.op : Call → FifoOp AppMsg
  | .push m ret => if ret = 0 then .put m else .reject m
  | .pop m _ => .take m

/-- The queue run by one thread: after `msg_queue_init`, any sequence of calls that
return. -/
def seqQueue : Sys MsgQueue Call where
  Init q := ∃ g ops, msgQueueInit (some g) 0 0 = (0, some q, ops)
  Next q c q' :=
    match c with
    | .push m ret => msgQueuePush (some q) (some m) = .ok (ret, some q')
    | .pop m ret => ∃ old, msgQueuePop (some q) (some old) = .ok (ret, some m, some q')

theorem seqQueue_clear (g : MsgQueue) : seqQueue.Init g.clear :=
  ⟨g, [(.lock, .acquire), (.cond, .acquire)], rfl⟩

/-- Whatever `msg_queue_init` returns, it has made the assignments. -/
theorem msgQueueInit_clear {g q : MsgQueue} {r r' ret : Int}
    {ops : List (QueuePart × Lifetime.Op)}
    (h : msgQueueInit (some g) r r' = (ret, some q, ops)) : q = g.clear := by
  unfold msgQueueInit at h
  dsimp only at h
  split at h
  · cases h; rfl
  · split at h <;> cases h <;> rfl

/-- The pthread objects that `msg_queue_init` leaves initialised: both or none. -/
theorem msgQueueInit_ops {g : MsgQueue} {q : Option MsgQueue} {r r' ret : Int}
    {ops : List (QueuePart × Lifetime.Op)} (h : msgQueueInit (some g) r r' = (ret, q, ops)) :
    ret = 0 ∧ ops = [(.lock, .acquire), (.cond, .acquire)] ∨
      ret ≠ 0 ∧ (ops = [] ∨ ops = [(.lock, .acquire), (.lock, .release)]) := by
  unfold msgQueueInit at h
  dsimp only at h
  split at h
  · cases h
    exact .inr ⟨by decide, .inl rfl⟩
  · split at h
    · cases h
      exact .inr ⟨by decide, .inr rfl⟩
    · cases h
      exact .inl ⟨rfl, rfl⟩

theorem seqQueue_init {q : MsgQueue} (h : seqQueue.Init q) : ∃ g, q = MsgQueue.clear g := by
  obtain ⟨g, ops, h⟩ := h
  simp only [msgQueueInit, ne_eq, not_true_eq_false, if_false, Prod.mk.injEq,
    Option.some.injEq] at h
  exact ⟨g, h.2.1.symm⟩

namespace MsgQueue.Ok

variable {q : MsgQueue}

theorem push_full (h : q.Ok) (m : AppMsg) (hc : q.contents.length = queueMaxSize) :
    msgQueuePush (some q) (some m) = .ok (-enospc, some q) := by
  have hfull : q.full = true := h.full_iff.2 (by rw [← h.length_contents, hc])
  simp [msgQueuePush, hfull]

theorem push_room (h : q.Ok) (m : AppMsg) (hc : q.contents.length < queueMaxSize) :
    ∃ q', msgQueuePush (some q) (some m) = .ok (0, some q') ∧ q'.Ok ∧
      q'.contents = q.contents ++ [m] := by
  have hl := h.length_contents
  have hfull : q.full = false := Bool.eq_false_iff.mpr fun e => by
    have := h.full_iff.1 e
    omega
  obtain ⟨q', hq', hok, hcont, -⟩ := h.copyIn m (by omega)
  exact ⟨q', by simp [msgQueuePush, hfull, hq'], hok, hcont⟩

theorem pop_some (h : q.Ok) (old : AppMsg) {m : AppMsg} {rest : List AppMsg}
    (hc : q.contents = m :: rest) :
    ∃ q', msgQueuePop (some q) (some old) = .ok (0, some m, some q') ∧ q'.Ok ∧
      q'.contents = rest := by
  have hl := h.length_contents
  rw [hc, List.length_cons] at hl
  have hempty : q.empty = false := by simp only [empty, decide_eq_false_iff_not]; omega
  obtain ⟨m', q', hq', hok, hcont, -⟩ := h.copyOut (by omega)
  rw [hc, List.cons.injEq] at hcont
  obtain ⟨rfl, rfl⟩ := hcont
  exact ⟨q', by simp [msgQueuePop, hempty, hq'], hok, rfl⟩

/-- One call that returns is one step of the bounded FIFO on the contents. -/
theorem next {c : Call} {q' : MsgQueue} (h : q.Ok) (hn : seqQueue.Next q c q') :
    q'.Ok ∧ (fifo queueMaxSize).Next q.contents c.op q'.contents := by
  cases c with
  | push m ret =>
    replace hn : msgQueuePush (some q) (some m) = .ok (ret, some q') := hn
    by_cases hc : q.contents.length < queueMaxSize
    · obtain ⟨q1, h1, hok, hcont⟩ := h.push_room m hc
      rw [h1] at hn
      cases hn
      exact ⟨hok, hc, hcont⟩
    · have hlen : q.contents.length = queueMaxSize := by
        have := h.length_contents; have := h.count; omega
      rw [h.push_full m hlen] at hn
      cases hn
      exact ⟨h, hlen, rfl⟩
  | pop m ret =>
    obtain ⟨old, hn⟩ := hn
    cases hc : q.contents with
    | nil =>
      have hl := h.length_contents
      rw [hc, List.length_nil] at hl
      have hempty : q.empty = true := by simp [empty, ← hl]
      simp [msgQueuePop, hempty] at hn
    | cons m' rest =>
      obtain ⟨q1, h1, hok, hcont⟩ := h.pop_some old hc
      rw [h1] at hn
      cases hn
      exact ⟨hok, by rw [hcont]; rfl⟩

end MsgQueue.Ok

/-- On these indices the C arithmetic on `head`, `tail`, `count` and the unsigned
`QUEUE_MAX_SIZE` is exact integer arithmetic, and every index is inside `buffer`. -/
structure MsgQueue.Exact (q : MsgQueue) : Prop where
  noOverflow : InInt (q.head + 1) ∧ InInt (q.tail + 1) ∧ InInt (q.count + 1) ∧ InInt (q.count - 1)
  compare : queueMaxSize ≤ toUnsigned q.count ↔ (queueMaxSize : Int) ≤ q.count
  headMod : ofUnsigned (toUnsigned (q.head + 1) % queueMaxSize) = (q.head + 1) % queueMaxSize
  tailMod : ofUnsigned (toUnsigned (q.tail + 1) % queueMaxSize) = (q.tail + 1) % queueMaxSize
  headSlot : (slot q.head).isSome
  tailSlot : (slot q.tail).isSome

theorem MsgQueue.Ok.exact {q : MsgQueue} (h : q.Ok) : q.Exact := by
  have hq := queueMaxSize_eq
  obtain ⟨hhead, htail, hcount, -⟩ := h
  refine ⟨?_, ?_, addMod hhead.1 (by omega) (by decide) (by decide),
    addMod htail.1 (by omega) (by decide) (by decide), ?_, ?_⟩
  · unfold InInt; omega
  · have := toUnsigned_of_nonneg hcount.1 (by omega)
    omega
  · rw [slot_eq hhead]; rfl
  · rw [slot_eq htail]; rfl

theorem seqQueue_ok {q₀ q : MsgQueue} {calls : List Call} (h0 : q₀.Ok)
    (h : seqQueue.Runs q₀ calls q) :
    q.Ok ∧ (fifo queueMaxSize).Runs q₀.contents (calls.map Call.op) q.contents := by
  induction h with
  | nil => exact ⟨h0, .nil _⟩
  | snoc _ hn ih =>
    obtain ⟨hok, hruns⟩ := ih
    obtain ⟨hok', hstep⟩ := hok.next hn
    rw [List.map_append]
    exact ⟨hok', .snoc hruns hstep⟩

/-- Messages that find room. -/
theorem MsgQueue.Ok.push_all {q : MsgQueue} (h : q.Ok) (ms : List AppMsg)
    (hroom : q.contents.length + ms.length ≤ queueMaxSize) :
    ∃ q', seqQueue.Runs q (ms.map fun m => .push m 0) q' ∧ q'.contents = q.contents ++ ms := by
  induction ms generalizing q with
  | nil => exact ⟨q, .nil q, (List.append_nil _).symm⟩
  | cons m ms ih =>
    rw [List.length_cons] at hroom
    obtain ⟨q₁, hpush, hok, hc⟩ := h.push_room m (by omega)
    have hlen : q₁.contents.length = q.contents.length + 1 := by rw [hc, List.length_append]; rfl
    obtain ⟨q₂, hruns, hc₂⟩ := ih hok (by omega)
    refine ⟨q₂, .cons (show seqQueue.Next q (.push m 0) q₁ from hpush) hruns, ?_⟩
    rw [hc₂, hc, List.append_assoc]
    rfl

/-- **The ring buffer refines a bounded FIFO.** After any sequence of calls on an
initialised queue the contents are those of the abstract FIFO after the same
calls, the representation invariant holds, all C arithmetic is exact, and the next
call does to the contents what the FIFO does. -/
theorem msgQueue_refines_fifo {q₀ q : MsgQueue} {calls : List Call} (hinit : seqQueue.Init q₀)
    (h : seqQueue.Runs q₀ calls q) :
    (fifo queueMaxSize).Runs [] (calls.map Call.op) q.contents ∧
    q.contents.length ≤ queueMaxSize ∧ q.Ok ∧ q.Exact ∧
    (∀ m, q.contents.length < queueMaxSize →
      ∃ q', msgQueuePush (some q) (some m) = .ok (0, some q') ∧ q'.contents = q.contents ++ [m]) ∧
    (∀ m, q.contents.length = queueMaxSize →
      msgQueuePush (some q) (some m) = .ok (-enospc, some q)) ∧
    (∀ old m rest, q.contents = m :: rest →
      ∃ q', msgQueuePop (some q) (some old) = .ok (0, some m, some q') ∧ q'.contents = rest) := by
  obtain ⟨g, rfl⟩ := seqQueue_init hinit
  obtain ⟨hok, hruns⟩ := seqQueue_ok (MsgQueue.ok_clear g) h
  rw [MsgQueue.contents_clear] at hruns
  refine ⟨hruns, fifo_length_le hruns (Nat.zero_le _), hok, hok.exact, fun m hc => ?_,
    fun m hc => hok.push_full m hc, fun old m rest hc => ?_⟩
  · obtain ⟨q', h1, -, h2⟩ := hok.push_room m hc
    exact ⟨q', h1, h2⟩
  · obtain ⟨q', h1, -, h2⟩ := hok.pop_some old hc
    exact ⟨q', h1, h2⟩

/-- The packet whose first byte is `i`. -/
def numbered (i : Nat) : AppMsg := .ofList [.ofNat i]

/-- 100 messages fill the queue, the next is rejected, the first is popped, and one more
is stored behind the end of `buffer`, where the first was. -/
def fillAndWrap : List Call :=
  ((List.range 100).map numbered).map (fun m => .push m 0) ++
    [.push (numbered 100) (-enospc), .pop (numbered 0) 0, .push (numbered 100) 0]

theorem msgQueue_refines_fifo_fillAndWrap :
    ∃ q, seqQueue.Runs (MsgQueue.clear default) fillAndWrap q ∧
      (fifo queueMaxSize).Runs [] (fillAndWrap.map Call.op) q.contents ∧
      q.contents = (List.range' 1 100).map numbered ∧ q.Ok ∧ q.Exact := by
  have hinit := seqQueue_clear default
  obtain ⟨q₁, hfill, hc₁⟩ :=
    (MsgQueue.ok_clear default).push_all ((List.range 100).map numbered) (by decide)
  rw [MsgQueue.contents_clear, List.nil_append] at hc₁
  obtain ⟨-, -, -, -, -, hreject, hpop⟩ := msgQueue_refines_fifo hinit hfill
  have hfull : seqQueue.Next q₁ (.push (numbered 100) (-enospc)) q₁ :=
    hreject (numbered 100) (by rw [hc₁, List.length_map]; rfl)
  obtain ⟨q₂, hpopped, hc₂⟩ := hpop default (numbered 0) ((List.range' 1 99).map numbered) hc₁
  have hfirst : seqQueue.Next q₁ (.pop (numbered 0) 0) q₂ := ⟨default, hpopped⟩
  have hruns := Sys.Runs.snoc (.snoc hfill hfull) hfirst
  obtain ⟨-, -, -, -, hroom, -, -⟩ := msgQueue_refines_fifo hinit hruns
  obtain ⟨q₃, hpushed, hc₃⟩ := hroom (numbered 100) (by rw [hc₂, List.length_map]; decide)
  have hlast : seqQueue.Next q₂ (.push (numbered 100) 0) q₃ := hpushed
  have hall := Sys.Runs.snoc hruns hlast
  rw [List.append_assoc, List.append_assoc] at hall
  obtain ⟨hfifo, -, hok, hexact, -⟩ := msgQueue_refines_fifo hinit hall
  refine ⟨q₃, hall, hfifo, ?_, hok, hexact⟩
  rw [hc₃, hc₂]
  rfl

end LinuxApp.Core
