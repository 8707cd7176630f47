import Mathlib.Data.Nat.Digits.Defs

/-!
# `core/data_types.h`

The packed IPC packet `app_msg_t`: a 32-bit type, a 32-bit checksum and a
256-byte body, 264 bytes without padding. A packet is its bytes; the fields a
function reads are decoded from their offsets, little-endian as on the A53. The
checksum and the control command have no reader in the application and are not
decoded.
-/

namespace LinuxApp.Core

/-- `MAX_PAYLOAD_SIZE` -/
def maxPayloadSize : Nat := 256

/-- `QUEUE_MAX_SIZE` -/
def queueMaxSize : Nat := 100

instance : NeZero queueMaxSize := ⟨by decide⟩

/-- `MSG_TYPE_SENSOR_DATA` -/
def msgTypeSensorData : Nat := 1

/-- `MSG_TYPE_HEARTBEAT` -/
def msgTypeHeartbeat : Nat := 3

/-- `sizeof(app_msg_t)`: type, checksum, body. -/
abbrev sizeofAppMsg : Nat := 264

example : sizeofAppMsg = 4 + 4 + maxPayloadSize := rfl

/-- `app_msg_t` -/
structure AppMsg where
  bytes : Vector UInt8 sizeofAppMsg
  deriving DecidableEq

instance : Inhabited AppMsg := ⟨⟨Vector.replicate _ 0⟩⟩

/-- `sensor_data_t` -/
structure SensorData where
  timestamp : Nat
  stackUsage : Nat
  cpuUsage : Nat
  pktCnt : Nat
  errCnt : Nat
  deriving DecidableEq

namespace AppMsg

/-- The little-endian number in the `len` bytes at `off`. -/
def le (m : AppMsg) (off : Nat) : Nat → Nat
  | 0 => 0
  | len + 1 => (m.bytes.getD off 0).toNat + 256 * m.le (off + 1) len

/-- `msg.type` -/
def type (m : AppMsg) : Nat := m.le 0 4

/-- `msg.body.sensor` -/
def sensor (m : AppMsg) : SensorData where
  timestamp := m.le 8 8
  stackUsage := m.le 16 4
  cpuUsage := m.le 20 4
  pktCnt := m.le 24 4
  errCnt := m.le 28 4

def toList (m : AppMsg) : List UInt8 := m.bytes.toList

@[simp] theorem length_toList (m : AppMsg) : m.toList.length = sizeofAppMsg := m.bytes.length_toList

theorem fits (m : AppMsg) : m.toList.length ≤ sizeofAppMsg :=
  Nat.le_of_eq m.length_toList

theorem toList_inj {m m' : AppMsg} (h : m.toList = m'.toList) : m = m' := by
  cases m; cases m'
  exact congrArg mk (Vector.toList_inj.mp h)

/-- The packet in 264 bytes of memory. -/
def ofList (bytes : List UInt8) : AppMsg := ⟨Vector.ofFn fun i => bytes.getD i 0⟩

theorem toList_ofList {bytes : List UInt8} (h : bytes.length = sizeofAppMsg) :
    (ofList bytes).toList = bytes := by
  apply List.ext_getElem
  · rw [length_toList, h]
  · intro i h1 h2
    simp [ofList, toList, h2]

@[simp] theorem ofList_toList (m : AppMsg) : ofList m.toList = m :=
  toList_inj (toList_ofList m.length_toList)

/-- The number whose digits in base 256, the lowest first, are the `len` bytes at `off`. -/
def number (m : AppMsg) (off len : Nat) : Nat :=
  Nat.ofDigits 256 (((m.toList.drop off).take len).map UInt8.toNat)

theorem le_eq_number {m : AppMsg} {off len : Nat} (h : off + len ≤ sizeofAppMsg) :
    m.le off len = m.number off len := by
  induction len generalizing off with
  | zero => simp [le, number]
  | succ len ih =>
    have hlt : off < m.toList.length := by rw [length_toList]; omega
    have hbyte : m.bytes.getD off 0 = m.toList[off] := by
      simp [toList, Vector.getD, show off < sizeofAppMsg by omega]
    rw [le, ih (by omega), number, number, List.drop_eq_getElem_cons hlt, List.take_succ_cons,
      List.map_cons, Nat.ofDigits_cons, hbyte]

theorem sensor_eq_numbers (m : AppMsg) : m.sensor =
    ⟨m.number 8 8, m.number 16 4, m.number 20 4, m.number 24 4, m.number 28 4⟩ := by
  rw [sensor, le_eq_number (by decide), le_eq_number (by decide), le_eq_number (by decide),
    le_eq_number (by decide), le_eq_number (by decide)]

/-- As many bytes that make up the same number are the same bytes. -/
theorem bytes_of_number {bs bs' : List UInt8} (hlen : bs.length = bs'.length)
    (h : Nat.ofDigits 256 (bs.map UInt8.toNat) = Nat.ofDigits 256 (bs'.map UInt8.toNat)) :
    bs = bs' := by
  have hdigit (l : List UInt8) : ∀ d ∈ l.map UInt8.toNat, d < 256 := by
    intro d hd
    obtain ⟨b, -, rfl⟩ := List.mem_map.mp hd
    exact b.toNat_lt
  have hdigits : bs.map UInt8.toNat = bs'.map UInt8.toNat := by
    apply Nat.ofDigits_inj_of_len_eq (by decide) _ (hdigit bs) (hdigit bs') h
    rw [List.length_map, List.length_map, hlen]
  exact (List.map_inj_right fun _ _ => UInt8.toNat_inj.mp).mp hdigits

theorem number_eq_iff {m : AppMsg} {off : Nat} (bs : List UInt8)
    (h : off + bs.length ≤ sizeofAppMsg) :
    m.number off bs.length = Nat.ofDigits 256 (bs.map UInt8.toNat) ↔
      (m.toList.drop off).take bs.length = bs := by
  rw [number]
  refine ⟨fun hx => bytes_of_number ?_ hx, fun hx => by rw [hx]⟩
  rw [List.length_take, List.length_drop, length_toList]
  omega

theorem type_sensor {m : AppMsg} :
    m.type = msgTypeSensorData ↔ m.toList.take 4 = [1, 0, 0, 0] := by
  rw [type, le_eq_number (by decide)]
  exact number_eq_iff [1, 0, 0, 0] (by decide)

theorem type_heartbeat {m : AppMsg} :
    m.type = msgTypeHeartbeat ↔ m.toList.take 4 = [3, 0, 0, 0] := by
  rw [type, le_eq_number (by decide)]
  exact number_eq_iff [3, 0, 0, 0] (by decide)

/-- The bytes from `a` up to `b` are the same. -/
def Agree (m m' : AppMsg) (a b : Nat) : Prop :=
  ∀ i, a ≤ i → i < b → m.bytes.getD i 0 = m'.bytes.getD i 0

/-- A field tells its bytes. -/
theorem le_eq_iff {m m' : AppMsg} {off len : Nat} :
    m.le off len = m'.le off len ↔ m.Agree m' off (off + len) := by
  induction len generalizing off with
  | zero =>
    refine ⟨fun _ i h1 h2 => ?_, fun _ => rfl⟩
    omega
  | succ len ih =>
    have h0 := (m.bytes.getD off 0).toNat_lt
    have h0' := (m'.bytes.getD off 0).toNat_lt
    simp only [le]
    refine ⟨fun hx => ?_, fun hx => ?_⟩
    · have hfirst : (m.bytes.getD off 0).toNat = (m'.bytes.getD off 0).toNat := by omega
      have hrest : m.le (off + 1) len = m'.le (off + 1) len := by omega
      intro i h1 h2
      by_cases hi : i = off
      · rw [hi]
        exact UInt8.toNat_inj.mp hfirst
      · exact ih.mp hrest i (by omega) (by omega)
    · have hrest : m.le (off + 1) len = m'.le (off + 1) len :=
        ih.mpr fun i h1 h2 => hx i (by omega) (by omega)
      rw [hx off (Nat.le_refl _) (by omega), hrest]

theorem agree_split {m m' : AppMsg} {a b c : Nat} (hab : a ≤ b) (hbc : b ≤ c) :
    m.Agree m' a b ∧ m.Agree m' b c ↔ m.Agree m' a c := by
  refine ⟨fun hx => ?_, fun hx => ?_⟩
  · intro i h1 h2
    by_cases hi : i < b
    · exact hx.1 i h1 hi
    · exact hx.2 i (by omega) h2
  · exact ⟨fun i h1 h2 => hx i h1 (by omega), fun i h1 h2 => hx i (by omega) h2⟩

/-- The five numbers are the 24 bytes of `sensor_data_t`. -/
theorem sensor_eq_iff {m m' : AppMsg} : m.sensor = m'.sensor ↔ m.Agree m' 8 32 := by
  simp only [sensor, SensorData.mk.injEq, le_eq_iff, Nat.reduceAdd]
  rw [agree_split (by omega) (by omega), agree_split (by omega) (by omega),
    agree_split (by omega) (by omega), agree_split (by omega) (by omega)]

end AppMsg

end LinuxApp.Core
