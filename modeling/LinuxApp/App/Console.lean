import LinuxApp.App.Telemetry
import LinuxApp.Lib.PrefixCode

/-!
# The console read back

`Entry`: what one report tells the operator, a heartbeat or the five numbers of a sensor
packet, and the first and the last line of the GUI worker. `entry_prefixCode`: where one
entry starts, its text tells the entry and where the next one starts, for the unit after
each number is no digit and the texts differ at their 14th character. So what the GUI
worker prints over a whole run is read in one way (`console_unambiguous`), and of a packet
it shows the type and the sensor data and nothing else (`report_text_iff`).

The console is here the GUI worker's own text. `main`, the RPMSG worker and the signal
handler print to the same `stdout`; their lines are left out.
-/

namespace LinuxApp.App

open Lib LinuxApp.Core Drivers

inductive Entry where
  | started
  | sensor (d : SensorData)
  | heartbeat
  | stopping
  deriving DecidableEq

def heartbeatLine : String := "[GUI THREAD] Heartbeat received from R5.\n"

namespace Entry

def lines : Entry → List String
  | started => [guiStarted]
  | sensor d => dashboard d
  | heartbeat => [heartbeatLine]
  | stopping => [guiStopping]

def text (e : Entry) : List Char := (String.join e.lines).toList

/-- The characters of the entries at place 13. -/
def mark : Fin 4 → Char
  | 0 => 'D'
  | 1 => '='
  | 2 => 'H'
  | 3 => 'S'

def kind : Entry → Fin 4
  | started => 0
  | sensor _ => 1
  | heartbeat => 2
  | stopping => 3

end Entry

/-! ## One entry -/

/-- The block before its first number. -/
def dashboardHead : List Char :=
  ("\n" ++ rule ++ "              REAL-TIME DASHBOARD LOG                 \n" ++ rule).toList

/-- A line of the block: a label, a number, a unit. -/
def numberLine (label unit : String) (n : Nat) : List Char :=
  label.toList ++ (Nat.toDigits 10 n ++ unit.toList)

theorem numberLine_prefixCode (label : String) {unit : String} {c : Char} {rest : List Char}
    (hu : unit.toList = c :: rest) (hc : c.isDigit = false) :
    PrefixCode (numberLine label unit) := by
  have h := PrefixCode.field label.toList hc rest
  rw [← hu] at h
  exact h

theorem toList_numberLine (label unit : String) (n : Nat) :
    (label ++ toString n ++ unit).toList = numberLine label unit n := by
  rw [String.toList_append, String.toList_append, List.append_assoc, Nat.toString_eq_repr,
    Nat.toList_repr, numberLine]

theorem sensor_text (d : SensorData) : (Entry.sensor d).text =
    dashboardHead ++
      (numberLine "  CPU Usage   : " "%\n" d.cpuUsage ++
        (numberLine "  Stack Usage : " " bytes\n" d.stackUsage ++
          (numberLine "  Packet Count: " "\n" d.pktCnt ++
            (numberLine "  Error Count : " "\n" d.errCnt ++
              numberLine "  Timestamp   : " " ms\n" d.timestamp)))) ++ rule.toList := by
  simp only [Entry.text, Entry.lines, dashboard, String.toList_join, List.flatMap_cons,
    List.flatMap_nil, toList_numberLine, dashboardHead]
  simp only [String.toList_append, List.append_assoc, List.append_nil]

/-- The numbers of the block in the order of their lines. -/
def shownNumbers (d : SensorData) : Nat × Nat × Nat × Nat × Nat :=
  (d.cpuUsage, d.stackUsage, d.pktCnt, d.errCnt, d.timestamp)

theorem shownNumbers_injective : shownNumbers.Injective := by
  rintro ⟨_, _, _, _, _⟩ ⟨_, _, _, _, _⟩ h
  simp only [shownNumbers, Prod.mk.injEq] at h
  obtain ⟨rfl, rfl, rfl, rfl, rfl⟩ := h
  rfl

theorem sensor_prefixCode : PrefixCode fun d => (Entry.sensor d).text := by
  have hcpu : PrefixCode (numberLine "  CPU Usage   : " "%\n") :=
    numberLine_prefixCode _ rfl (by decide)
  have hstack : PrefixCode (numberLine "  Stack Usage : " " bytes\n") :=
    numberLine_prefixCode _ rfl (by decide)
  have hpkt : PrefixCode (numberLine "  Packet Count: " "\n") :=
    numberLine_prefixCode _ rfl (by decide)
  have herr : PrefixCode (numberLine "  Error Count : " "\n") :=
    numberLine_prefixCode _ rfl (by decide)
  have htime : PrefixCode (numberLine "  Timestamp   : " " ms\n") :=
    numberLine_prefixCode _ rfl (by decide)
  have hlines := hcpu.pair (hstack.pair (hpkt.pair (herr.pair htime)))
  have hblock := ((hlines.quote dashboardHead).followed rule.toList).comap shownNumbers_injective
  intro d d' xs ys heq
  simp only [sensor_text] at heq
  exact hblock heq

theorem text_mark (e : Entry) : e.text[13]? = some (Entry.mark e.kind) := by
  cases e with
  | started | heartbeat | stopping => decide
  | sensor d =>
    have hfirst : ("\n" ++ rule).toList[13]? = some '=' := by
      rw [String.toList_append]
      rfl
    obtain ⟨hlt, -⟩ := List.getElem?_eq_some_iff.mp hfirst
    rw [sensor_text, dashboardHead, String.toList_append, String.toList_append]
    simp only [List.append_assoc]
    rw [List.getElem?_append_left hlt]
    exact hfirst

theorem entry_prefixCode : PrefixCode Entry.text := by
  refine .tagged 13 Entry.kind Entry.mark (by decide) text_mark ?_
  intro e e' xs ys hkind heq
  cases e with
  | started =>
    cases e' with
    | started => exact ⟨rfl, List.append_cancel_left heq⟩
    | sensor _ | heartbeat | stopping => cases hkind
  | sensor d =>
    cases e' with
    | sensor d' =>
      obtain ⟨rfl, hxs⟩ := sensor_prefixCode heq
      exact ⟨rfl, hxs⟩
    | started | heartbeat | stopping => cases hkind
  | heartbeat =>
    cases e' with
    | heartbeat => exact ⟨rfl, List.append_cancel_left heq⟩
    | started | sensor _ | stopping => cases hkind
  | stopping =>
    cases e' with
    | stopping => exact ⟨rfl, List.append_cancel_left heq⟩
    | started | sensor _ | heartbeat => cases hkind

theorem text_flatMap (es : List Entry) :
    (String.join (es.flatMap Entry.lines)).toList = es.flatMap Entry.text := by
  rw [String.toList_join, List.flatMap_assoc]
  congr 1
  funext e
  rw [Entry.text, String.toList_join]

theorem text_ne_nil (e : Entry) : e.text ≠ [] := by
  intro hnil
  have hmark := text_mark e
  rw [hnil] at hmark
  cases hmark

/-! ## One packet -/

/-- The entry of one packet. -/
def entry (m : AppMsg) : Option Entry :=
  if m.type = msgTypeSensorData then some (.sensor m.sensor)
  else if m.type = msgTypeHeartbeat then some .heartbeat
  else none

theorem report_lines (m : AppMsg) : report m = (entry m).toList.flatMap Entry.lines := by
  unfold report entry
  split
  · simp [Entry.lines]
  · split
    · simp [Entry.lines, heartbeatLine]
    · rfl

theorem report_text (m : AppMsg) :
    (String.join (report m)).toList = (entry m).toList.flatMap Entry.text := by
  rw [report_lines, text_flatMap]

theorem entry_eq_iff (m m' : AppMsg) : entry m = entry m' ↔
    (m.type = msgTypeSensorData ↔ m'.type = msgTypeSensorData) ∧
    (m.type = msgTypeHeartbeat ↔ m'.type = msgTypeHeartbeat) ∧
    (m.type = msgTypeSensorData → m.Agree m' 8 32) := by
  have hne : msgTypeSensorData ≠ msgTypeHeartbeat := by decide
  unfold entry
  by_cases hs : m.type = msgTypeSensorData
  · by_cases hs' : m'.type = msgTypeSensorData
    · rw [if_pos hs, if_pos hs', Option.some.injEq, Entry.sensor.injEq, AppMsg.sensor_eq_iff]
      simp [hs, hs', hne]
    · rw [if_pos hs, if_neg hs']
      refine ⟨fun hx => ?_, fun hx => absurd (hx.1.mp hs) hs'⟩
      split at hx <;> cases hx
  · by_cases hs' : m'.type = msgTypeSensorData
    · rw [if_neg hs, if_pos hs']
      refine ⟨fun hx => ?_, fun hx => absurd (hx.1.mpr hs') hs⟩
      split at hx <;> cases hx
    · rw [if_neg hs, if_neg hs']
      by_cases hb : m.type = msgTypeHeartbeat <;> by_cases hb' : m'.type = msgTypeHeartbeat <;>
        simp [hs, hs', hb, hb', hne.symm]

/-- **What the console shows of a packet.** Two packets are printed alike exactly if both
are sensor packets with the same bytes 8 to 31, both heartbeats or both of another type:
the checksum and the bytes past the sensor data are never looked at, all else is shown. -/
theorem report_text_iff (m m' : AppMsg) : String.join (report m) = String.join (report m') ↔
    (m.type = msgTypeSensorData ↔ m'.type = msgTypeSensorData) ∧
    (m.type = msgTypeHeartbeat ↔ m'.type = msgTypeHeartbeat) ∧
    (m.type = msgTypeSensorData → m.Agree m' 8 32) := by
  rw [← entry_eq_iff, ← String.toList_inj, report_text, report_text]
  refine ⟨fun hx => ?_, fun hx => ?_⟩
  · have hlists := entry_prefixCode.flatMap_inj text_ne_nil hx
    have hheads := congrArg List.head? hlists
    rwa [Option.head?_toList, Option.head?_toList] at hheads
  · rw [hx]

/-! ## The whole console -/

def GuiPc.opening (pc : GuiPc) : List Entry := if pc.banner = [] then [] else [.started]

def GuiPc.closing (pc : GuiPc) : List Entry := if pc.trailer = [] then [] else [.stopping]

theorem GuiPc.banner_lines (pc : GuiPc) : pc.banner = pc.opening.flatMap Entry.lines := by
  cases pc <;> simp [GuiPc.banner, GuiPc.opening, Entry.lines]

theorem GuiPc.trailer_lines (pc : GuiPc) : pc.trailer = pc.closing.flatMap Entry.lines := by
  cases pc <;> simp [GuiPc.trailer, GuiPc.closing, Entry.lines]

namespace AppState

/-- The packets popped without the one in the GUI worker's hand. -/
def printed (s : AppState) : List AppMsg :=
  (dequeued s.rx.log).take ((dequeued s.rx.log).length - s.unprinted.length)

/-- What the GUI worker has said, entry by entry. -/
def transcript (s : AppState) : List Entry :=
  s.gui.opening ++ s.printed.filterMap entry ++ s.gui.closing

theorem printed_eq {s : AppState} {handled : List AppMsg}
    (h : dequeued s.rx.log = handled ++ s.unprinted) : s.printed = handled := by
  rw [printed, h, List.length_append, Nat.add_sub_cancel, List.take_left]

/-- The GUI worker's text is its transcript. -/
theorem output_text {s : AppState} (h : s.Telemetry) :
    (String.join s.output).toList = s.transcript.flatMap Entry.text := by
  obtain ⟨handled, hd, hout⟩ := h.printed
  have hlines : s.output = s.transcript.flatMap Entry.lines := by
    have hrep : handled.flatMap report = (handled.filterMap entry).flatMap Entry.lines := by
      rw [List.filterMap_eq_flatMap_toList, List.flatMap_assoc]
      exact congrArg (List.flatMap · handled) (funext report_lines)
    rw [hout, transcript, printed_eq hd, List.flatMap_append, List.flatMap_append, hrep,
      ← GuiPc.banner_lines, ← GuiPc.trailer_lines]
  rw [hlines, text_flatMap]

end AppState

/-- **The console is read in one way.** In any two reachable states, of one run or of
two, the text the GUI worker has printed is the same exactly when it has said the same:
the same sensor readings and heartbeats in the same order, with the same first and last
line. -/
theorem console_unambiguous {s s' : AppState} (h : appSys.Reach s) (h' : appSys.Reach s') :
    String.join s.output = String.join s'.output ↔ s.transcript = s'.transcript := by
  rw [← String.toList_inj, AppState.output_text (telemetry_inv h),
    AppState.output_text (telemetry_inv h')]
  refine ⟨fun hx => ?_, fun hx => ?_⟩
  · exact entry_prefixCode.flatMap_inj text_ne_nil hx
  · rw [hx]

theorem console_unambiguous_heartbeat :
    heartbeatEnd.transcript = [.started, .heartbeat, .stopping] ∧
      String.join heartbeatEnd.output ≠ String.join processStart.output := by
  have hend : heartbeatEnd.transcript = [.started, .heartbeat, .stopping] := by decide +kernel
  have hstart : processStart.transcript = [] := by decide +kernel
  refine ⟨hend, fun htext => ?_⟩
  have hsame := (console_unambiguous heartbeatEnd_reach (.init processStart_init)).mp htext
  rw [hend, hstart] at hsame
  cases hsame

end LinuxApp.App
