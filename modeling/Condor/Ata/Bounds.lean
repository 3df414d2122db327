import Condor.Ata.Quiet

/-!
# The end of the destination

Where the reads store. The destination is indexed in units of four bytes, one
for each word of two, and the loops end when the device says so. A read stays
inside its buffer if the device hands out no more words than the buffer has
units, which is half of what the sectors hold (`stores_within_iff`).
-/

namespace Condor.Ata

open Lib Lib.Prog

variable {m : Machine} {d : AtaDevice} {device : Nat} {lba : BitVec 64} {sector_count : BitVec 8}
  {l : List Access} {r : Except Stop Bool}

/-- All stores are to the first `bytes` bytes. -/
def StoresWithin (bytes : Nat) (log : List Access) : Prop :=
  ∀ i v, Access.store i v ∈ log → 4 * i + 4 ≤ bytes

theorem mem_stores {i : Nat} : i ∈ stores l ↔ ∃ v, Access.store i v ∈ l := by
  unfold stores marks
  rw [List.filterMap_filterMap, List.mem_filterMap]
  constructor
  · rintro ⟨e, he, hi⟩
    cases e with
    | store j v =>
      cases hi
      exact ⟨v, he⟩
    | inb w p v =>
      have hnone : (Access.inb w p v).mark.bind Mark.store? = none := by
        cases w with
        | drq =>
          rw [Access.mark]
          split <;> rfl
        | _ => rfl
      rw [hnone] at hi
      cases hi
    | _ => cases hi
  · rintro ⟨v, hv⟩
    exact ⟨_, hv, rfl⟩

theorem storesWithin_iff {n w : Nat} (h : stores l = List.range w) : StoresWithin (4 * n) l ↔ w ≤ n := by
  have hmem (i : Nat) : (∃ v, Access.store i v ∈ l) ↔ i < w := by rw [← mem_stores, h, List.mem_range]
  constructor
  · intro hin
    by_contra hlt
    obtain ⟨v, hv⟩ := (hmem n).mpr (by omega)
    have hend := hin n v hv
    omega
  · intro hle i v hv
    have hi := (hmem i).mp ⟨v, hv⟩
    omega

/-! ## Where the reads store -/

theorem Transferred.stopped {turn : Turn} (h : Transferred [] turn r m) : Stopped [] turn m := by
  cases r with
  | ok b => exact Turned.stopped h
  | error e => exact h

theorem PacketTransferred.stopped (h : PacketTransferred d r m) :
    ∃ s, Stopped (List.replicate s .send) read_turn m := by
  cases r with
  | ok b =>
    rcases h with ⟨-, hm⟩ | ⟨-, s, hs⟩
    · exact ⟨0, 0, [], hm, List.nil_prefix ..⟩
    · exact ⟨s, hs.stopped⟩
  | error e => exact h

theorem Nothing.stores_eq {x : M Bool} (h : Nothing x m) (hlog : m.log = []) :
    stores (x.run m).2.log = List.range (words (x.run m).2.log) := by
  rcases h with h | h <;> rw [h, hlog] <;> rfl

theorem ata_readSectors_stores (hm : Indexed m) (hlog : m.log = []) (device : Nat) (lba : BitVec 64)
    (sector_count : BitVec 8) :
    stores ((ata_readSectors device lba sector_count).run m).2.log =
      List.range (words ((ata_readSectors device lba sector_count).run m).2.log) := by
  rw [ata_readSectors_eq]
  cases hd : m.record (device >>> DEVICE_INFO_SHIFT) with
  | none => exact (ata_start_nothing hd).stores_eq hlog
  | some d => exact (ata_start_transferred hd (hm.lt hd) hlog read_rest_turned).stopped.stores_eq (s := 0)

theorem atapi_readSectors_stores (hm : Indexed m) (hlog : m.log = []) (device : Nat) (lba : BitVec 64)
    (sector_count : BitVec 8) :
    stores ((atapi_readSectors device lba sector_count).run m).2.log =
      List.range (words ((atapi_readSectors device lba sector_count).run m).2.log) := by
  rw [atapi_readSectors_eq]
  cases hd : m.record (device >>> DEVICE_INFO_SHIFT) with
  | none => exact (atapi_start_nothing hd).stores_eq hlog
  | some d =>
    rw [atapi_start_run hd]
    split
    · rw [hlog]
      rfl
    · rw [atapi_rest_run]
      obtain ⟨s, hs⟩ := (atapi_sendCommand_transferred 12 hd (hm.lt hd) hlog
        (rw_packet_read (.inl rfl))).stopped
      exact hs.stores_eq

/-! ## Requests that are turned down -/

theorem Marked.within (h : Marked [] m) (bytes : Nat) : StoresWithin bytes m.log := by
  intro i v hv
  have hmem : i ∈ stores m.log := mem_stores.mpr ⟨v, hv⟩
  unfold Marked at h
  unfold stores at hmem
  rw [h] at hmem
  cases hmem

theorem Nothing.within {x : M Bool} (h : Nothing x m) (hlog : m.log = []) (bytes : Nat) :
    StoresWithin bytes (x.run m).2.log := by
  rcases h with h | h <;> rw [h, hlog] <;> exact nofun

theorem marked_of_log (hlog : m.log = []) : Marked [] m := by
  rw [Marked, hlog]
  rfl

theorem ata_start_refused {cmd48 cmd28 : BitVec 8} {rest : BitVec 32 → M Bool}
    (hd : m.record (device >>> DEVICE_INFO_SHIFT) = some d) (hlt : device < m.controller_index)
    (hlog : m.log = []) (h : Refused d device lba sector_count ∨ d.base_port = 0) :
    Marked [] ((ata_start device lba sector_count cmd48 cmd28 rest).run m).2 := by
  apply ata_start_rule (R := fun _ => Marked []) hd hlt (plain_marked []) (plain_marked [])
    (marked_of_log hlog)
  · exact fun _ _ _ h => h
  · exact fun _ _ h => h
  · exact fun _ _ h => h
  · exact fun _ _ h => h
  · intro href hne
    exact absurd h (not_or.mpr ⟨href, hne⟩)

theorem sending_false : Sending fun _ => False where
  irq := fun _ h => h.elim
  arrivals _ _ h := h
  read _ _ _ _ _ h := h
  block _ _ _ _ h := h
  current _ _ h := h
  outb_log _ _ _ h := h
  outw_log _ _ _ h := h

theorem atapi_sendCommand_declined {command : Nat → BitVec 8} {command_length : BitVec 8}
    (hd : m.record (device >>> DEVICE_INFO_SHIFT) = some d) (hlt : device < m.controller_index)
    (hlog : m.log = []) (h : Declined d) :
    Marked [] ((atapi_sendCommand device command command_length).run m).2 := by
  -- The device is not taken, so nothing has to hold from then on.
  apply atapi_sendCommand_rule (R := fun _ => Marked []) hd hlt (plain_marked []) sending_false.toPlain
    sending_false (marked_of_log hlog)
  · exact fun hnot => absurd h hnot
  · exact fun _ h => h
  · exact fun _ _ h => h
  · exact fun _ _ h => h
  · exact fun _ _ h => h.elim
  · exact fun _ _ h => h.elim
  · exact fun hnot => absurd h hnot

theorem ata_readSectors_down (hm : Indexed m) (hlog : m.log = [])
    (hdown : ∀ d, m.record (device >>> DEVICE_INFO_SHIFT) = some d →
      Refused d device lba sector_count ∨ d.base_port = 0) (bytes : Nat) :
    StoresWithin bytes ((ata_readSectors device lba sector_count).run m).2.log := by
  rw [ata_readSectors_eq]
  cases hd : m.record (device >>> DEVICE_INFO_SHIFT) with
  | none => exact (ata_start_nothing hd).within hlog bytes
  | some d => exact (ata_start_refused hd (hm.lt hd) hlog (hdown d hd)).within bytes

theorem atapi_readSectors_down (hm : Indexed m) (hlog : m.log = [])
    (hdown : ∀ d, m.record (device >>> DEVICE_INFO_SHIFT) = some d →
      AtapiRefused d lba sector_count ∨ Declined d) (bytes : Nat) :
    StoresWithin bytes ((atapi_readSectors device lba sector_count).run m).2.log := by
  rw [atapi_readSectors_eq]
  cases hd : m.record (device >>> DEVICE_INFO_SHIFT) with
  | none => exact (atapi_start_nothing hd).within hlog bytes
  | some d =>
    rw [atapi_start_run hd]
    split
    · exact (marked_of_log hlog).within bytes
    · rename_i href
      rw [atapi_rest_run]
      exact (atapi_sendCommand_declined hd (hm.lt hd) hlog ((hdown d hd).resolve_left href)).within bytes

/-! ## A drive that hands out words -/

/-- A drive at the usual ports that hands out `n` words. -/
def drive_found (n : Nat) : Machine :=
  ⟨2, some [⟨0x1F0, 0x3F6, .ATA, false, 0, false, true, false, 0⟩], 0, [0, 0, 0, 0, 1] ++ answers n, [],
    fun _ => 0, []⟩

theorem drive_found_words (n : Nat) :
    ∃ m', (ata_readSectors 0 0 1).run (drive_found n) = (.ok true, m') ∧ words m'.log = n := by
  have href : ¬ Refused ⟨0x1F0, 0x3F6, .ATA, false, 0, false, true, false, 0⟩ 0 0 1 := by decide
  have hquiet : Quiet 0 ⟨0x1F0, 0x3F6, .ATA, false, 0, false, true, false, 0⟩ 0
    (0 :: 0 :: 0 :: 0 :: 1 :: answers n) (drive_found n) := ⟨rfl, rfl, rfl, Nat.zero_lt_two, rfl⟩
  obtain ⟨_, m', hrun, rfl, hw⟩ := (ata_readSectors_total href (by decide) n).run hquiet
  exact ⟨m', hrun, hw.trans (Nat.zero_add n)⟩

theorem not_storesWithin {n w : Nat} (h : stores l = List.range (words l)) (hw : words l = w)
    (hlt : n < w) :
    ¬ StoresWithin (4 * n) l := by
  rw [storesWithin_iff h, hw]
  exact Nat.not_le.mpr hlt

/-- The answers `vs` make a read store behind its destination. -/
theorem stores_beyond (hm : Indexed m) (hlog : m.log = [])
    (hd : m.record (device >>> DEVICE_INFO_SHIFT) = some d)
    {x : M Bool} {vs : List (BitVec 16)} {n : Nat}
    (hstores : ∀ vs, stores (x.run ((m.set_responses vs).set_arrivals [])).2.log =
      List.range (words (x.run ((m.set_responses vs).set_arrivals [])).2.log))
    (hx : Total (Quiet device d 0 vs) x fun _ m => words m.log = 0 + (n + 1)) :
    ∃ responses, ¬ StoresWithin (4 * n) (x.run ((m.set_responses responses).set_arrivals [])).2.log := by
  have hzero : words m.log = 0 := by
    rw [hlog]
    rfl
  have hquiet : Quiet device d 0 vs ((m.set_responses vs).set_arrivals []) :=
    ⟨rfl, rfl, hd, hm.lt hd, hzero⟩
  obtain ⟨r, m', hrun, hw⟩ := hx.run hquiet
  refine ⟨vs, not_storesWithin (hstores vs) ?_ (Nat.lt_succ_self n)⟩
  rw [hrun, hw, Nat.zero_add]

/-! ## The bound -/

/-- **Reads inside the destination.** An ATA read stores to the first `512 * n` bytes only, whatever
the ports answer, if and only if it is turned down, and a packet read to the first `2048 * n`. In
one run they do if and only if the device hands out at most `128 * n` words, or `512 * n`. -/
theorem stores_within_iff (hm : Indexed m) (hlog : m.log = []) (device : Nat) (lba : BitVec 64)
    (sector_count : BitVec 8) :
    ((∀ responses arrivals, StoresWithin (512 * sector_count.toNat)
        ((ata_readSectors device lba sector_count).run ((m.set_responses responses).set_arrivals arrivals)).2.log) ↔
      ∀ d, m.record (device >>> DEVICE_INFO_SHIFT) = some d →
        Refused d device lba sector_count ∨ d.base_port = 0) ∧
    ((∀ responses arrivals, StoresWithin (2048 * sector_count.toNat)
        ((atapi_readSectors device lba sector_count).run ((m.set_responses responses).set_arrivals arrivals)).2.log) ↔
      ∀ d, m.record (device >>> DEVICE_INFO_SHIFT) = some d →
        AtapiRefused d lba sector_count ∨ Declined d) ∧
    (StoresWithin (512 * sector_count.toNat) ((ata_readSectors device lba sector_count).run m).2.log ↔
      words ((ata_readSectors device lba sector_count).run m).2.log ≤ 128 * sector_count.toNat) ∧
    (StoresWithin (2048 * sector_count.toNat) ((atapi_readSectors device lba sector_count).run m).2.log ↔
      words ((atapi_readSectors device lba sector_count).run m).2.log ≤ 512 * sector_count.toNat) := by
  have hata : 512 * sector_count.toNat = 4 * (128 * sector_count.toNat) := by omega
  have hatapi : 2048 * sector_count.toNat = 4 * (512 * sector_count.toNat) := by omega
  refine ⟨⟨fun hin d hd => ?_, fun hdown responses arrivals => ?_⟩,
    ⟨fun hin d hd => ?_, fun hdown responses arrivals => ?_⟩, ?_, ?_⟩
  · by_contra hc
    obtain ⟨href, hbase⟩ := not_or.mp hc
    obtain ⟨responses, hout⟩ := stores_beyond hm hlog hd
      (fun vs => ata_readSectors_stores (m := (m.set_responses vs).set_arrivals []) hm hlog device lba sector_count)
      ((ata_readSectors_total href hbase (128 * sector_count.toNat + 1)).after fun _ _ h => h.2)
    rw [← hata] at hout
    exact hout (hin responses [])
  · exact ata_readSectors_down (m := (m.set_responses responses).set_arrivals arrivals) hm hlog hdown _
  · by_contra hc
    obtain ⟨href, hnot⟩ := not_or.mp hc
    obtain ⟨responses, hout⟩ := stores_beyond hm hlog hd
      (fun vs => atapi_readSectors_stores (m := (m.set_responses vs).set_arrivals []) hm hlog device lba sector_count)
      ((atapi_readSectors_total href hnot (512 * sector_count.toNat)).after fun _ _ h => h)
    rw [← hatapi] at hout
    exact hout (hin responses [])
  · exact atapi_readSectors_down (m := (m.set_responses responses).set_arrivals arrivals) hm hlog hdown _
  · rw [hata]
    exact storesWithin_iff (ata_readSectors_stores hm hlog device lba sector_count)
  · rw [hatapi]
    exact storesWithin_iff (atapi_readSectors_stores hm hlog device lba sector_count)

theorem stores_within_half :
    StoresWithin (512 * (1 : BitVec 8).toNat) ((ata_readSectors 0 0 1).run (drive_found 128)).2.log := by
  apply (stores_within_iff (m := drive_found 128) rfl rfl 0 0 1).2.2.1.mpr
  obtain ⟨m', hrun, hw⟩ := drive_found_words 128
  rw [hrun, hw]
  exact Nat.le_refl _

/-- A drive hands out one sector, and half of it is stored behind the destination. -/
theorem stores_behind_sector :
    ((ata_readSectors 0 0 1).run (drive_found 256)).1 = .ok true ∧
      ¬ StoresWithin 512 ((ata_readSectors 0 0 1).run (drive_found 256)).2.log := by
  obtain ⟨m', hrun, hw⟩ := drive_found_words 256
  have hstores := ata_readSectors_stores (m := drive_found 256) rfl rfl 0 0 1
  rw [hrun] at hstores ⊢
  exact ⟨rfl, not_storesWithin (n := 128) hstores hw (by decide)⟩

end Condor.Ata
