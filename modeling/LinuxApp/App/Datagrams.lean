import LinuxApp.App.DeviceUse
import LinuxApp.App.Pipeline

/-!
# From R5's datagrams to the console

`unread`: the datagrams R5 sends to the endpoint and that no read has taken yet. A read
of bytes takes the first of them whole and copies what fits; since R5 may send it later,
a read may also find nothing, and any call may fail.

`packetOf` is what becomes of a datagram on the way through `read(fd, buf, 264)` and the
driver's comparison with 264: cut to a packet if it is long enough, dropped if not.
`unread_consumes` ties the reads of a trace to the datagrams, `app_sim` the packets to
the console, by which is meant what the GUI worker prints.
-/

namespace LinuxApp.App

open Lib LinuxApp.Core Drivers

/-- The datagrams to come after one more system call. -/
def unread (ds : List (List UInt8)) : Exchange Posix → Option (List (List UInt8))
  | ⟨.read _ len, .data bytes _⟩ =>
    match ds with
    | d :: rest => if bytes = d.take len then some rest else none
    | [] => none
  | _ => some ds

def packetOf (d : List UInt8) : Option AppMsg :=
  if sizeofAppMsg ≤ d.length then some (.ofList (d.take sizeofAppMsg)) else none

theorem packetOf_bytes (d : List UInt8) :
    (packetOf d).toList.map AppMsg.toList =
      if (d.take sizeofAppMsg).length = sizeofAppMsg then [d.take sizeofAppMsg] else [] := by
  unfold packetOf
  by_cases hlong : sizeofAppMsg ≤ d.length
  · have hlen : (d.take sizeofAppMsg).length = sizeofAppMsg := by
      rw [List.length_take]
      omega
    rw [if_pos hlong, if_pos hlen, Option.toList_some, List.map_singleton,
      AppMsg.toList_ofList hlen]
  · have hlen : (d.take sizeofAppMsg).length ≠ sizeofAppMsg := by
      rw [List.length_take]
      omega
    rw [if_neg hlong, if_neg hlen, Option.toList_none, List.map_nil]

/-- Every read asks for a whole packet. -/
def ReadsPackets (es : Exchanges) : Prop :=
  ∀ e ∈ es, ∀ fd len (a : ReadAnswer len), e = ⟨.read fd len, a⟩ → len = sizeofAppMsg

section Trace

variable {ds ds' : List (List UInt8)} {e : Exchange Posix} {es : Exchanges}

/-- One call takes one datagram or none. -/
theorem unread_step (hlen : ReadsPackets [e]) (h : unread ds e = some ds') :
    ∃ taken, ds = taken ++ ds' ∧
      fullReads [e] = (taken.filterMap packetOf).map AppMsg.toList := by
  obtain ⟨r, a⟩ := e
  cases r with
  | openFile path flags =>
    obtain rfl := Option.some.inj h
    exact ⟨[], rfl, by cases a <;> rfl⟩
  | close fd =>
    obtain rfl := Option.some.inj h
    exact ⟨[], rfl, rfl⟩
  | poll fd ev t =>
    obtain rfl := Option.some.inj h
    exact ⟨[], rfl, by cases a <;> rfl⟩
  | write fd bytes =>
    obtain rfl := Option.some.inj h
    exact ⟨[], rfl, by cases a <;> rfl⟩
  | read fd len =>
    obtain rfl := hlen _ (List.mem_singleton_self _) fd len a rfl
    cases a with
    | failed e =>
      obtain rfl := Option.some.inj h
      exact ⟨[], rfl, rfl⟩
    | data bytes hfits =>
      cases ds with
      | nil => cases h
      | cons d rest =>
        simp only [unread] at h
        split at h
        · next hbytes =>
          obtain rfl := Option.some.inj h
          refine ⟨[d], rfl, ?_⟩
          have hd := packetOf_bytes d
          rw [← hbytes] at hd
          rw [List.filterMap_eq_flatMap_toList, List.flatMap_singleton, hd]
          simp only [fullReads, List.filterMap_eq_flatMap_toList, List.flatMap_singleton, fullRead]
          split <;> rfl
        · cases h

/-- The full reads of a trace are the packets of the datagrams it takes. -/
theorem unread_consumes (hlen : ReadsPackets es) (h : serve unread ds es = some ds') :
    ∃ taken, ds = taken ++ ds' ∧ fullReads es = (taken.filterMap packetOf).map AppMsg.toList := by
  induction es generalizing ds with
  | nil =>
    obtain rfl := Option.some.inj h
    exact ⟨[], rfl, rfl⟩
  | cons e es ih =>
    obtain ⟨ds₁, h1, h2⟩ := Option.bind_eq_some_iff.mp h
    have hhead : ReadsPackets [e] := by
      intro x hx
      exact hlen x (List.mem_singleton.mp hx ▸ List.mem_cons_self ..)
    have htail : ReadsPackets es := fun x hx => hlen x (List.mem_cons_of_mem _ hx)
    obtain ⟨first, rfl, hfirst⟩ := unread_step hhead h1
    obtain ⟨later, rfl, hlater⟩ := ih htail h2
    refine ⟨first ++ later, (List.append_assoc ..).symm, ?_⟩
    rw [← List.singleton_append, fullReads_append, hfirst, hlater, List.filterMap_append,
      List.map_append]

end Trace

theorem reads_packets {s : AppState} (h : appSys.Reach s) : ReadsPackets s.drv.trace := by
  rintro e he fd len a rfl
  obtain ⟨p, p', hp⟩ := serve_mem (uses_device h).script he
  exact (deviceUse_read hp).2

/-- The packets received are those of the datagrams read. -/
theorem received_datagrams {s : AppState} (h : appSys.Reach s) {ds rest : List (List UInt8)}
    (hd : serve unread ds s.drv.trace = some rest) :
    ∃ taken, ds = taken ++ rest ∧ taken.filterMap packetOf = s.received := by
  obtain ⟨taken, hds, hfull⟩ := unread_consumes (reads_packets h) hd
  refine ⟨taken, hds, ?_⟩
  rw [(device_inv h).reads] at hfull
  exact List.map_injective_iff.mpr (fun _ _ => AppMsg.toList_inj) hfull.symm

/-- **From R5 to the console.** If the device hands over the datagrams `ds` in order, then
in every state of every run those read are a first part of `ds`; the packets they make are
those settled and the one the RPMSG worker holds; those settled are an interleaving of
those shown, in the GUI worker's hand and queued, in this order, with those rejected; and
the console holds the reports of those shown. If none is rejected, the console shows a
first part of what R5 sent. -/
theorem datagrams_to_console {s : AppState} (h : appSys.Reach s) {ds rest : List (List UInt8)}
    (hd : serve unread ds s.drv.trace = some rest) :
    ∃ taken settled shown, ds = taken ++ rest ∧
      taken.filterMap packetOf = settled ++ s.holding ∧
      Shuffle settled (shown ++ s.unprinted ++ s.buffered) (rejected s.rx.log) ∧
      s.output = s.gui.banner ++ shown.flatMap report ++ s.gui.trailer ∧
      (rejected s.rx.log = [] → shown <+: ds.filterMap packetOf) := by
  obtain ⟨taken, rfl, hpackets⟩ := received_datagrams h hd
  obtain ⟨p, hp, hf⟩ := app_sim.reach h
  obtain ⟨settled, harr, hsh⟩ := (pipeline_inv hp).shuffle
  rw [Pipe.taken, hf.hand, hf.queued, hf.dropped] at hsh
  rw [hf.arrived, hf.held] at harr
  refine ⟨taken, settled, p.displayed, rfl, hpackets.trans harr, hsh, hf.output, ?_⟩
  intro hnone
  rw [hnone] at hsh
  rw [List.filterMap_append, hpackets, harr, hsh.eq_of_nil]
  simp only [List.append_assoc]
  exact List.prefix_append _ _

/-- The run of one heartbeat, of a device that holds a longer datagram after it. -/
theorem datagrams_to_console_heartbeat :
    ∃ shown, heartbeatEnd.output = [guiStarted] ++ shown.flatMap report ++ [guiStopping] ∧
      shown <+: [heartbeat.toList, List.replicate 300 0].filterMap packetOf := by
  have hd : serve unread [heartbeat.toList, List.replicate 300 0] heartbeatEnd.drv.trace =
      some [List.replicate 300 0] := by decide +kernel
  obtain ⟨_, _, shown, -, -, -, hout, hfirst⟩ := datagrams_to_console heartbeatEnd_reach hd
  have hgui : heartbeatEnd.gui = .returned := by decide +kernel
  rw [hgui] at hout
  exact ⟨shown, hout, hfirst (by decide +kernel)⟩

end LinuxApp.App
