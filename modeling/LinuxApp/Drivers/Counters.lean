import LinuxApp.Drivers.Framing
import LinuxApp.Lib.Tally

/-!
# The I/O counters

The raw layer advances the counters exchange by exchange: `tx_count` on a write the
kernel takes (`wrote`), `rx_count` on a read that brings bytes (`got`), `err_count`
on a failed `open`, `write` or `read` (`recorded`). `driver_counts` says so for every
run of the driver. Whether a message went through is decided one layer above, by the
length 264: `message_settled` compares the two layers call by call.
-/

namespace LinuxApp.Drivers

open Lib LinuxApp.Core
open Prog (replay)

/-! ## What the raw layer counts -/

/-- A write that the kernel took, all of it or less. -/
def wrote : Exchange Posix → Bool
  | ⟨.write _ _, .count _ _⟩ => true
  | _ => false

/-- A read that brought bytes. -/
def got : Exchange Posix → Bool
  | ⟨.read _ _, .data bytes _⟩ => decide (0 < bytes.length)
  | _ => false

/-- A failure that the driver adds to `err_count`. -/
def recorded : Exchange Posix → Bool
  | ⟨.openFile _ _, .failed _⟩ => true
  | ⟨.write _ _, .failed _⟩ => true
  | ⟨.read _ _, .failed e⟩ => decide (e.val ≠ eagain)
  | _ => false

namespace Done

def resets (d : Done) : Bool :=
  match d.call with
  | .resetStats => true
  | _ => false

/-- The call had an exchange that meets `p`. -/
def has (p : Exchange Posix → Bool) (d : Done) : Bool := d.exchanges.any p

end Done

/-- The counters after exchanges that clear none. -/
structure Advances (c : RpmsgCtx) (es : Exchanges) (c' : RpmsgCtx) : Prop where
  tx : c'.txCount = if es.any wrote then c.txCount + 1 else c.txCount
  rx : c'.rxCount = if es.any got then c.rxCount + 1 else c.rxCount
  err : c'.errCount = if es.any recorded then c.errCount + 1 else c.errCount

section Advances

variable {c c' : RpmsgCtx} {es : Exchanges} {ctx : Option RpmsgCtx} {ret : Int}

theorem Advances.nil (c : RpmsgCtx) : Advances c [] c := ⟨rfl, rfl, rfl⟩

/-- Exchanges that count nothing, before others. -/
theorem Advances.after {c₁ : RpmsgCtx} {es₁ : Exchanges} (h : Advances c₁ es c')
    (hq : ∀ e ∈ es₁, wrote e = false ∧ got e = false ∧ recorded e = false)
    (hs : c₁.txCount = c.txCount ∧ c₁.rxCount = c.rxCount ∧ c₁.errCount = c.errCount) :
    Advances c (es₁ ++ es) c' := by
  have htx : es₁.any wrote = false := List.any_eq_false.mpr fun e he => by simp [(hq e he).1]
  have hrx : es₁.any got = false := List.any_eq_false.mpr fun e he => by simp [(hq e he).2.1]
  have herr : es₁.any recorded = false :=
    List.any_eq_false.mpr fun e he => by simp [(hq e he).2.2]
  obtain ⟨h1, h2, h3⟩ := hs
  refine ⟨?_, ?_, ?_⟩
  · rw [List.any_append, htx, Bool.false_or, ← h1]; exact h.tx
  · rw [List.any_append, hrx, Bool.false_or, ← h2]; exact h.rx
  · rw [List.any_append, herr, Bool.false_or, ← h3]; exact h.err

theorem close_advances (h : replay c.close es = some c') :
    (∀ e ∈ es, wrote e = false ∧ got e = false ∧ recorded e = false) ∧
      c'.txCount = c.txCount ∧ c'.rxCount = c.rxCount ∧ c'.errCount = c.errCount := by
  cases ho : c.isOpen with
  | true =>
    obtain ⟨a, rfl, rfl⟩ := (close_open ho).mp h
    exact ⟨by simp [wrote, got, recorded], rfl, rfl, rfl⟩
  | false =>
    obtain ⟨rfl, rfl⟩ := (close_closed ho).mp h
    exact ⟨by simp, rfl, rfl, rfl⟩

theorem setPath_counts (c : RpmsgCtx) (p : CStr) : (c.setPath p).txCount = c.txCount ∧
    (c.setPath p).rxCount = c.rxCount ∧ (c.setPath p).errCount = c.errCount := by
  simp only [RpmsgCtx.setPath, and_self]

theorem choosePath_counts (c : RpmsgCtx) (path : Option CStr) :
    (choosePath c path).txCount = c.txCount ∧ (choosePath c path).rxCount = c.rxCount ∧
      (choosePath c path).errCount = c.errCount := by
  rcases choosePath_cases c path with ⟨p, h⟩ | h
  · rw [h]; exact setPath_counts c p
  · rw [h]; exact ⟨rfl, rfl, rfl⟩

theorem openResult_advances {path : List UInt8} {flags : Nat} (a : OpenAnswer) :
    Advances c [⟨.openFile path flags, a⟩] (openResult c a).2 := by
  cases a with
  | failed e => exact ⟨rfl, rfl, rfl⟩
  | fd n => exact ⟨rfl, rfl, rfl⟩

theorem rpmsgOpen_advances {path : Option CStr}
    (h : replay (rpmsgOpen (some c) path) es = some (ret, some c')) : Advances c es c' := by
  obtain ⟨es₁, c₁, a, h1, rfl, rfl, hc⟩ := rpmsgOpen_iff.mp h
  obtain rfl := Option.some.inj hc
  obtain ⟨hq, htx, hrx, herr⟩ := close_advances h1
  obtain ⟨h2, h3, h4⟩ := choosePath_counts c₁ path
  exact (openResult_advances a).after hq ⟨h2.trans htx, h3.trans hrx, h4.trans herr⟩

theorem writeResult_advances (fd : Int) {bytes : List UInt8} (a : WriteAnswer bytes.length) :
    Advances c [⟨.write fd bytes, a⟩] (writeResult c a).2 := by
  cases a with
  | failed e => exact ⟨rfl, rfl, rfl⟩
  | count n h => exact ⟨rfl, rfl, rfl⟩

theorem readResult_advances (fd : Int) (buf : List UInt8) {len : Nat} (a : ReadAnswer len) :
    Advances c [⟨.read fd len, a⟩] (readResult c buf a).2.1 := by
  cases a with
  | failed e =>
    simp only [readResult]
    split
    · next hx => exact ⟨rfl, rfl, by simp [recorded, hx]⟩
    · next hx => exact ⟨rfl, rfl, by simp [recorded, hx]⟩
  | data bytes h =>
    simp only [readResult]
    split
    · next hx => exact ⟨rfl, by simp [got, Nat.pos_iff_ne_zero.mp hx], rfl⟩
    · next hx => exact ⟨rfl, by simp [got, Nat.eq_zero_of_not_pos hx], rfl⟩

theorem poll_silent (fd t : Int) (a : PollAnswer) :
    ∀ e ∈ ([⟨.poll fd pollIn t, a⟩] : Exchanges),
      wrote e = false ∧ got e = false ∧ recorded e = false := by
  simp [wrote, got, recorded]

theorem reads_advances {buf : List UInt8} {len : Nat} {t : Int}
    {out : Int × RpmsgCtx × List UInt8} (h : Reads c buf len t es out) :
    Advances c es out.2.1 := by
  cases h with
  | stopped a _ _ => exact (Advances.nil c).after (poll_silent c.fd t a) ⟨rfl, rfl, rfl⟩
  | through a hready =>
    have hread := readResult_advances (c := c) c.fd buf a
    cases hready with
    | now _ => exact hread
    | polled b _ _ => exact hread.after (poll_silent c.fd t b) ⟨rfl, rfl, rfl⟩

theorem Transferred.advances (h : Transferred c es c') : Advances c es c' := by
  cases h with
  | rejected => exact .nil c
  | polled t a _ => exact (Advances.nil c).after (poll_silent c.fd t a) ⟨rfl, rfl, rfl⟩
  | written bytes a _ => exact writeResult_advances c.fd a
  | read _ hr => exact reads_advances hr

/-- One call, unless it clears the counters. -/
theorem call_advances {call : DrvCall} (hn : call ≠ .resetStats)
    (h : replay (call.run (some c)) es = some (ret, some c')) : Advances c es c' := by
  rcases call.groups with ht | ⟨path, rfl⟩ | rfl
  · rcases transfer_cases ht h with ⟨hcall, -⟩ | ⟨_, -, hc, hd⟩
    · exact absurd hcall hn
    · obtain rfl := Option.some.inj hc
      exact hd.advances
  · exact rpmsgOpen_advances h
  · obtain ⟨_, hclose, -, hc⟩ := close_run.mp h
    obtain rfl := Option.some.inj hc
    obtain ⟨hq, hs⟩ := close_advances hclose
    simpa using (Advances.nil c').after hq ⟨hs.1, hs.2.1, hs.2.2⟩

end Advances

/-! ## Whole runs -/

/-- The counters hold, modulo 2^32, the calls since the last reset with a write taken,
a read that brought bytes, a failure recorded. -/
structure DrvState.Counted (s : DrvState) : Prop where
  tx : Counts Done.resets (Done.has wrote) s.log s.ctx.txCount
  rx : Counts Done.resets (Done.has got) s.log s.ctx.rxCount
  err : Counts Done.resets (Done.has recorded) s.log s.ctx.errCount

/-- Every call clears, advances or leaves each counter. -/
theorem call_counted {c c' : RpmsgCtx} {es : Exchanges} {ret : Int} {call : DrvCall}
    (h : replay (call.run (some c)) es = some (ret, some c')) :
    c'.txCount = advance Done.resets (Done.has wrote) c.txCount ⟨call, ret, es⟩ ∧
      c'.rxCount = advance Done.resets (Done.has got) c.rxCount ⟨call, ret, es⟩ ∧
      c'.errCount = advance Done.resets (Done.has recorded) c.errCount ⟨call, ret, es⟩ := by
  by_cases hn : call = .resetStats
  · subst hn
    obtain ⟨rfl, he⟩ := (Prog.replay_pure (S := Posix)).mp h
    cases he
    exact ⟨rfl, rfl, rfl⟩
  · have ha := call_advances hn h
    have hd : Done.resets ⟨call, ret, es⟩ = false := by
      unfold Done.resets
      split
      · next hc => exact absurd hc hn
      · rfl
    simp only [advance, hd, Bool.false_eq_true, if_false]
    exact ⟨ha.tx, ha.rx, ha.err⟩

theorem driver_counts {s : DrvState} (h : driverSys.Reach s) : s.Counted := by
  induction h with
  | init h =>
    obtain ⟨c, hc, -, hlog⟩ := h
    have hctx := (Option.some.inj hc).symm
    refine ⟨?_, ?_, ?_⟩
    · rw [hlog, hctx]; exact .nil
    · rw [hlog, hctx]; exact .nil
    · rw [hlog, hctx]; exact .nil
  | next _ hn ih =>
    obtain ⟨ret, c', fds, hp, -, rfl⟩ := DrvState.step_eq_some.mp hn
    obtain ⟨htx, hrx, herr⟩ := call_counted hp
    refine ⟨?_, ?_, ?_⟩
    · rw [htx]; exact ih.tx.snoc
    · rw [hrx]; exact ih.rx.snoc
    · rw [herr]; exact ih.err.snoc

end LinuxApp.Drivers
