import Condor.Ata.Identify
import Condor.Ata.Reject
import Condor.Lib.Runs

/-!
# The records of `ide_init`

Ids are handed out in steps of two, and each one indexes its own record, which
later calls leave where it is. But the record is given the id that the call
starts with and not the one it returns, so none of them has its own
(`ide_init_records`). And its type and its capabilities are those of one drive
unless a slave is found and the master puts a block over the slave's.
-/

namespace Condor.Ata.Identify

open Lib

variable {krealloc : List Device → Nat → List Device} {t t' : Table} {c : Call} {id : Nat} {d : Device}
  {slave master f : Found} {es : List (Call × Nat)} {data data' : Nat → BitVec 32} {words : List (BitVec 16)}

/-- `krealloc` gives a table of the new size with the records of the old one. -/
structure Preserves (krealloc : List Device → Nat → List Device) : Prop where
  length : ∀ l n, (krealloc l n).length = n
  get : ∀ l n i, i < l.length → i < n → (krealloc l n)[i]? = l[i]?

/-- The call `c` returns `id`. -/
def Step (krealloc : List Device → Nat → List Device) (t : Table) (e : Call × Nat) (t' : Table) : Prop :=
  ide_init krealloc t e.1 = some (e.2, t')

/-- One of the drives is found. -/
def Call.Finds (c : Call) : Prop :=
  c.base_port ≠ 0 ∧ c.alt_port ≠ 0 ∧
    ∃ slave master, c.probe = some (slave, master) ∧ (slave.type ≠ .INVALID ∨ master.type ≠ .INVALID)

/-- The record is the one that the call fills in. -/
def Call.Made (c : Call) (d : Device) : Prop :=
  ∃ slave master, c.probe = some (slave, master) ∧ d = c.record slave master

def Device.caps (d : Device) : Capabilities :=
  ⟨d.lba_support, d.dma_support, d.ata_version, d.mdma_support, d.udma_support, d.lba48_support⟩

/-- The type and the capabilities of the record are those of the drive. A packet drive has no say in
`lba48_support`. -/
def Call.SetFrom (c : Call) (f : Found) (d : Device) : Prop :=
  d.interface_type = f.type ∧ ∃ words, f.block = some words ∧
    let caps := capabilities (overwritten c.data words)
    d.caps = { caps with
      lba48_feature_set_support :=
        if InterfaceType.packet f.type then d.lba48_support else caps.lba48_feature_set_support }

/-- The type and the capabilities of the record are those of one of the drives. -/
def Call.SameDrive (c : Call) (d : Device) : Prop :=
  ∃ slave master, c.probe = some (slave, master) ∧ (c.SetFrom slave d ∨ c.SetFrom master d)

/-! ## Drives -/

theorem capabilities_congr (h : ∀ i < 256, data i = data' i) :
    capabilities data = capabilities data' := by
  have hbit (unit bit : Nat) (hlt : unit < 256) : info_bit data unit bit = info_bit data' unit bit := by
    rw [info_bit, h unit hlt, info_bit]
  have hmap (unit n : Nat) (hlt : unit < 256) :
      (List.range n).map (info_bit data unit) = (List.range n).map (info_bit data' unit) :=
    List.map_congr_left fun bit _ => hbit unit bit hlt
  simp only [capabilities, hbit 31 _ (by omega), hbit 64 _ (by omega), hmap 42 _ (by omega),
    hmap 67 _ (by omega), h 62 (by omega)]

/-- A block covers all that the capabilities are read from. -/
theorem capabilities_overwritten (h : words.length = 256) :
    capabilities (overwritten data words) = capabilities (overwritten data' words) := by
  refine capabilities_congr fun i hi => ?_
  have hin : words[i]? = some words[i] := List.getElem?_eq_getElem (by omega)
  simp only [overwritten, hin, Option.map_some, Option.getD_some]

/-- The record is set from the drive whose type it has and whose block is in the memory. -/
theorem Call.record_setFrom (htype : result_master slave master = f.type) (hblock : f.block = some words)
    (hcaps : capabilities (c.info slave master) = capabilities (overwritten c.data words)) :
    c.SetFrom f (c.record slave master) := by
  refine ⟨htype, words, hblock, ?_⟩
  have hpacket : (c.record slave master).lba48_support = if InterfaceType.packet f.type then c.device.lba48_support
      else (capabilities (overwritten c.data words)).lba48_feature_set_support := by
    rw [← hcaps, ← htype]
    rfl
  unfold Device.caps
  simp only [hpacket]
  simp only [Call.record, hcaps]
  split <;> rfl

/-- A record is of one drive if the slave is not found or the master puts no block over the slave's. -/
theorem Call.record_sameDrive (hprobe : c.probe = some (slave, master))
    (hfound : slave.type ≠ .INVALID ∨ master.type ≠ .INVALID)
    (h : slave.type = .INVALID ∨ master.block = none) :
    c.SameDrive (c.record slave master) := by
  obtain ⟨hslave, hmaster⟩ := Call.probe_whole hprobe
  refine ⟨slave, master, hprobe, ?_⟩
  by_cases htype : slave.type = .INVALID
  · right
    obtain ⟨words, hw⟩ := Option.isSome_iff_exists.mp (hmaster.block (hfound.resolve_left (· htype)))
    refine Call.record_setFrom (if_neg (· htype)) hw ?_
    rw [Call.info, hw, Option.getD_some]
    exact capabilities_overwritten (hmaster.sized words hw)
  · left
    obtain ⟨words, hw⟩ := Option.isSome_iff_exists.mp (hslave.block htype)
    refine Call.record_setFrom (if_pos htype) hw ?_
    rw [Call.info, h.resolve_left htype, hw]
    rfl

/-- A SATA drive as the slave, whose block is all zeros, and an ATA drive as the master, whose is
all ones. -/
def two_drives : Call :=
  ⟨0x1F0, 0x3F6, 14,
    [0x50, 0, 0, 0, 0, 0, 0, 0, 0, 0x58, 0x3C, 0xC3, 0x58, 0x58, 0x58] ++ List.replicate 256 0 ++
      ([0x50, 0, 0, 0, 0, 0, 0, 0, 0, 0x58, 0, 0, 0x58, 0x58, 0x58] ++ List.replicate 256 0xFFFF),
    fun _ => 0, ⟨⟨0, 0, .INVALID, false, 0, false, false, false, 0⟩, 0, 0, false, 0, 0, 0, 0, 0⟩⟩

/-- The record has the type of the slave and the capabilities of the master. -/
theorem two_drives_mixed : ∃ d, two_drives.Made d ∧ d.interface_type = .SATA ∧ d.lba_support = 1 ∧
    ¬ two_drives.SameDrive d := by
  have hprobe : two_drives.probe =
      some (⟨.SATA, some (List.replicate 256 0)⟩, ⟨.ATA, some (List.replicate 256 0xFFFF)⟩) := by
    decide +kernel
  refine ⟨_, ⟨_, _, hprobe, rfl⟩, rfl, rfl, ?_⟩
  rintro ⟨slave, master, h, hset⟩
  rw [hprobe] at h
  cases h
  obtain ⟨-, words, hw, hcaps⟩ | ⟨htype, -⟩ := hset
  · cases hw
    exact absurd (congrArg Capabilities.lba_support hcaps) (by decide +kernel)
  · exact absurd htype (by decide)

/-! ## Calls -/

/-- The table has a record for every second id. -/
def Table.Indexed (t : Table) : Prop := 2 * (t.controllers.getD []).length = t.controller_index

theorem result_master_found :
    result_master slave master ≠ .INVALID ↔ slave.type ≠ .INVALID ∨ master.type ≠ .INVALID := by
  unfold result_master
  split
  · exact ⟨.inl, fun _ => ‹_›⟩
  · exact ⟨.inr, fun h => h.resolve_left ‹_›⟩

/-- The table grown by one record, with the record in its last place. -/
theorem Preserves.set_last (hk : Preserves krealloc) (l : List Device) (d : Device) :
    (krealloc l (l.length + 1)).set l.length d = l ++ [d] := by
  refine List.ext_getElem? fun i => ?_
  rw [List.getElem?_set, hk.length]
  rcases Nat.lt_trichotomy i l.length with hlt | rfl | hgt
  · rw [if_neg (by omega), hk.get l _ i hlt (by omega), List.getElem?_append_left hlt]
  · simp
  · rw [if_neg (by omega), List.getElem?_eq_none (by rw [hk.length]; omega),
      List.getElem?_eq_none (by simp; omega)]

/-- A call fails and leaves the table, or appends the record it has filled in. -/
theorem ide_init_cases (hk : Preserves krealloc) (ht : t.Indexed)
    (h : ide_init krealloc t c = some (id, t')) :
    (id = ATA_DEVICE_INVALID ∧ t' = t ∧ ¬ c.Finds) ∨
    (id = t.controller_index ∧ c.Finds ∧ ∃ d, c.Made d ∧
      t' = ⟨t.controller_index + 2, some (t.controllers.getD [] ++ [d])⟩) := by
  unfold ide_init at h
  split at h
  · rename_i hports
    cases h
    exact .inl ⟨rfl, rfl, fun hf => hports.elim hf.1 hf.2.1⟩
  · rename_i hports
    obtain ⟨⟨slave, master⟩, hprobe, h⟩ := Option.map_eq_some_iff.mp h
    dsimp only at h
    split at h
    · rename_i hfound
      cases h
      have hfinds : c.Finds := ⟨fun h => hports (.inl h), fun h => hports (.inr h), slave, master, hprobe,
        result_master_found.mp hfound⟩
      refine .inr ⟨rfl, hfinds, c.record slave master, ⟨slave, master, hprobe, rfl⟩, ?_⟩
      have hold : t.controller_index >>> 1 = (t.controllers.getD []).length := by
        rw [← ht, Nat.shiftRight_eq_div_pow]
        omega
      have hnew : (t.controller_index + 2) >>> 1 = (t.controllers.getD []).length + 1 := by
        rw [← ht, Nat.shiftRight_eq_div_pow]
        omega
      rw [hold, hnew, hk.set_last]
    · rename_i hnone
      cases h
      refine .inl ⟨rfl, rfl, fun ⟨_, _, slave', master', hp, hf⟩ => hnone ?_⟩
      rw [hprobe] at hp
      cases hp
      exact result_master_found.mpr hf

theorem ide_init_indexed (hk : Preserves krealloc) (ht : t.Indexed)
    (h : ide_init krealloc t c = some (id, t')) :
    t'.Indexed := by
  obtain ⟨-, rfl, -⟩ | ⟨-, -, d, -, rfl⟩ := ide_init_cases hk ht h
  · exact ht
  · unfold Table.Indexed at ht ⊢
    rw [Option.getD_some, List.length_append, List.length_singleton, Nat.mul_add, ht]

/-! ## The table without what identifies a drive -/

/-- The table as the requests use it, in the machine `m`. -/
def Table.erase (t : Table) (m : Machine) : Machine :=
  { m with
    controller_index := t.controller_index
    controllers := t.controllers.map (·.map Device.toAtaDevice) }

/-- What the two probes come to. -/
def Call.outcome (c : Call) (slave master : Found) : Probe :=
  ⟨slave.type, master.type, (capabilities (c.info slave master)).lba48_feature_set_support, c.device.toAtaDevice⟩

/-- A call is one of `Ata.ide_init`, for what its probes come to. -/
theorem ide_init_erase (hk : Preserves krealloc) (ht : t.Indexed)
    (h : ide_init krealloc t c = some (id, t'))
    (m : Machine) : ∃ p, Ata.ide_init (t.erase m) c.base_port c.alt_port p = (id, t'.erase m) := by
  obtain ⟨rfl, rfl, hno⟩ | ⟨rfl, ⟨hbase, halt, slave, master, hprobe, hf⟩, _, ⟨_, _, hp, rfl⟩, rfl⟩ :=
    ide_init_cases hk ht h
  · refine ⟨⟨.INVALID, .INVALID, false, c.device.toAtaDevice⟩, ?_⟩
    unfold Ata.ide_init
    split <;> rfl
  · rw [hprobe] at hp
    cases hp
    refine ⟨c.outcome slave master, ?_⟩
    have hfound : (if (c.outcome slave master).slave ≠ .INVALID then (c.outcome slave master).slave
        else (c.outcome slave master).master) ≠ .INVALID := result_master_found.mpr hf
    unfold Ata.ide_init
    rw [if_neg (not_or.mpr ⟨hbase, halt⟩)]
    dsimp only
    rw [if_pos hfound]
    refine Prod.ext rfl ?_
    simp only [Table.erase, Option.map_some, List.map_append, List.map_singleton]
    have hold : (t.controllers.map (·.map Device.toAtaDevice)).getD [] =
        (t.controllers.getD []).map Device.toAtaDevice := by cases t.controllers <;> rfl
    rw [hold]
    by_cases htype : slave.type = .INVALID <;>
      simp [Call.record, Call.outcome, InterfaceType.packet, result_master, htype]

/-! ## Runs -/

/-- The ids that calls have returned without failing. -/
def ids (es : List (Call × Nat)) : List Nat := (es.map Prod.snd).filter (· ≠ ATA_DEVICE_INVALID)

/-- The record that the call of `e` has made is found under its id. -/
def Recorded (t : Table) (e : Call × Nat) : Prop := ∃ d, e.1.Made d ∧ ata_getDeviceInfo t e.2 = some d

/-- What holds of the calls so far: the ids are those of the records in the table, in their order, and
the other calls have found nothing. -/
structure Registry (es : List (Call × Nat)) (t : Table) : Prop where
  indexed : t.Indexed
  given : ids es = (List.range (t.controllers.getD []).length).map (2 * ·)
  recorded : ∀ e ∈ es, e.2 ≠ ATA_DEVICE_INVALID → Recorded t e
  finds : ∀ e ∈ es, e.1.Finds ↔ e.2 ≠ ATA_DEVICE_INVALID

theorem registry_start : Registry [] Table.start where
  indexed := rfl
  given := rfl
  recorded _ h := nomatch h
  finds _ h := nomatch h

theorem ata_getDeviceInfo_record (ht : t.Indexed) (i : Nat) :
    ata_getDeviceInfo t (2 * i) = (t.controllers.getD [])[i]? := by
  have hvalid : 2 * i ≠ ATA_DEVICE_INVALID := by
    unfold ATA_DEVICE_INVALID
    omega
  have hshift : (2 * i) >>> DEVICE_INFO_SHIFT = i := by
    rw [DEVICE_INFO_SHIFT, Nat.shiftRight_eq_div_pow]
    omega
  unfold ata_getDeviceInfo
  rw [hshift, ← ht]
  split
  · rw [List.getElem?_eq_none (by omega)]
  · rfl

theorem ids_append (es : List (Call × Nat)) (e : Call × Nat) :
    ids (es ++ [e]) = ids es ++ if e.2 = ATA_DEVICE_INVALID then [] else [e.2] := by
  unfold ids
  rw [List.map_append, List.filter_append]
  by_cases h : e.2 = ATA_DEVICE_INVALID <;> simp [h]

/-- The id of a call that has not failed indexes one of the records. -/
theorem Registry.id_lt (h : Registry es t) {e : Call × Nat} (he : e ∈ es)
    (hok : e.2 ≠ ATA_DEVICE_INVALID) :
    ∃ i < (t.controllers.getD []).length, e.2 = 2 * i := by
  have hmem : e.2 ∈ ids es := List.mem_filter.mpr ⟨List.mem_map_of_mem he, decide_eq_true hok⟩
  rw [h.given, List.mem_map] at hmem
  obtain ⟨i, hi, heq⟩ := hmem
  exact ⟨i, List.mem_range.mp hi, heq.symm⟩

/-- A record stays under its id when another is appended. -/
theorem Registry.recorded_append (h : Registry es t) (d : Device) {e : Call × Nat} (he : e ∈ es)
    (hok : e.2 ≠ ATA_DEVICE_INVALID)
    (ht' : Table.Indexed ⟨t.controller_index + 2, some (t.controllers.getD [] ++ [d])⟩) :
    Recorded ⟨t.controller_index + 2, some (t.controllers.getD [] ++ [d])⟩ e := by
  obtain ⟨d', hmade, hget⟩ := h.recorded e he hok
  obtain ⟨i, hi, heq⟩ := h.id_lt he hok
  refine ⟨d', hmade, ?_⟩
  rw [heq, ata_getDeviceInfo_record h.indexed] at hget
  rw [heq, ata_getDeviceInfo_record ht', Option.getD_some, List.getElem?_append_left hi, hget]

theorem Registry.step (hk : Preserves krealloc) (h : Registry es t) {e : Call × Nat}
    (hs : Step krealloc t e t') : Registry (es ++ [e]) t' := by
  have ht' := ide_init_indexed hk h.indexed hs
  obtain ⟨hid, rfl, hno⟩ | ⟨hid, hfinds, d, hmade, rfl⟩ := ide_init_cases hk h.indexed hs
  · refine ⟨ht', ?_, fun e' he' hok => ?_, fun e' he' => ?_⟩
    · rw [ids_append, if_pos hid, List.append_nil, h.given]
    · rcases List.mem_append.mp he' with hold | hnew
      · exact h.recorded e' hold hok
      · rw [List.mem_singleton.mp hnew] at hok
        exact absurd hid hok
    · rcases List.mem_append.mp he' with hold | hnew
      · exact h.finds e' hold
      · rw [List.mem_singleton.mp hnew]
        exact iff_of_false hno (not_not_intro hid)
  · have hlen : e.2 = 2 * (t.controllers.getD []).length := hid.trans h.indexed.symm
    have hok : e.2 ≠ ATA_DEVICE_INVALID := by
      unfold ATA_DEVICE_INVALID
      omega
    refine ⟨ht', ?_, fun e' he' hok' => ?_, fun e' he' => ?_⟩
    · rw [ids_append, if_neg hok, h.given, Option.getD_some, List.length_append, List.length_singleton,
        List.range_succ, List.map_append, List.map_singleton, hlen]
    · rcases List.mem_append.mp he' with hold | hnew
      · exact h.recorded_append d hold hok' ht'
      · rw [List.mem_singleton.mp hnew]
        refine ⟨d, hmade, ?_⟩
        rw [hlen, ata_getDeviceInfo_record ht', Option.getD_some, List.getElem?_concat_length]
    · rcases List.mem_append.mp he' with hold | hnew
      · exact h.finds e' hold
      · rw [List.mem_singleton.mp hnew]
        exact iff_of_true hfinds hok

theorem registry_of_run (hk : Preserves krealloc) (h : Run (Step krealloc) Table.start es t) :
    Registry es t := by
  induction h with
  | nil => exact registry_start
  | snoc _ hs ih => exact ih.step hk hs

/-- The tables that calls lead to are those that the requests are about. -/
theorem registered_of_run (hk : Preserves krealloc) (h : Run (Step krealloc) Table.start es t)
    (m : Machine) :
    Registered (t.erase m) := by
  induction h with
  | nil => exact .init rfl rfl
  | @snoc _ _ _ e hrun hs ih =>
    obtain ⟨p, hp⟩ := ide_init_erase hk (registry_of_run hk hrun).indexed hs m
    have hnext := ih.ide_init e.1.base_port e.1.alt_port p
    rwa [hp] at hnext

/-! ## Ids and drives -/

/-- The ids are distinct, each leads to the record of its call, and a call that fails changes nothing. -/
structure Kept (krealloc : List Device → Nat → List Device) (es : List (Call × Nat)) (t : Table) :
    Prop where
  distinct : (ids es).Nodup
  recorded : ∀ e ∈ es, e.2 ≠ ATA_DEVICE_INVALID → Recorded t e
  failed : ∀ c t', ide_init krealloc t c = some (ATA_DEVICE_INVALID, t') → t' = t

/-- Each record also has its own id, and is of one drive. -/
structure Consistent (krealloc : List Device → Nat → List Device) (es : List (Call × Nat))
    (t : Table) : Prop
    extends Kept krealloc es t where
  dev_id : ∀ e ∈ es, e.2 ≠ ATA_DEVICE_INVALID → ∀ d, ata_getDeviceInfo t e.2 = some d →
    d.dev_id.toNat = e.2
  drive : ∀ e ∈ es, e.2 ≠ ATA_DEVICE_INVALID → ∀ d, ata_getDeviceInfo t e.2 = some d → e.1.SameDrive d

theorem Registry.kept (hk : Preserves krealloc) (h : Registry es t) : Kept krealloc es t where
  distinct := by
    rw [h.given]
    exact List.nodup_range.map fun i j hij => Nat.eq_of_mul_eq_mul_left Nat.two_pos hij
  recorded := h.recorded
  failed c t' hc := by
    obtain ⟨-, rfl, -⟩ | ⟨hid, -⟩ := ide_init_cases hk h.indexed hc
    · rfl
    · have heven := h.indexed
      unfold Table.Indexed at heven
      unfold ATA_DEVICE_INVALID at hid
      omega

/-- The id in a record that is found is the invalid one. -/
theorem Recorded.dev_id {e : Call × Nat} (h : Recorded t e) (hget : ata_getDeviceInfo t e.2 = some d) :
    d.dev_id.toNat = ATA_DEVICE_INVALID := by
  obtain ⟨d', ⟨slave, master, -, rfl⟩, hd'⟩ := h
  rw [hget] at hd'
  cases hd'
  rfl

/-- **The records of `ide_init`.** In every sequence of calls the ids are distinct, each leads to the
record of its call, which is of one drive unless a slave is found and the master puts a block over the
slave's, and calls that fail change nothing. The records also have their own ids if and only if no call
finds a drive. -/
theorem ide_init_records (hk : Preserves krealloc) (h : Run (Step krealloc) Table.start es t) :
    Kept krealloc es t ∧
    (∀ e ∈ es, e.2 ≠ ATA_DEVICE_INVALID → ∀ slave master, e.1.probe = some (slave, master) →
      slave.type = .INVALID ∨ master.block = none → ∃ d, ata_getDeviceInfo t e.2 = some d ∧
        e.1.SameDrive d) ∧
    (Consistent krealloc es t ↔ ∀ e ∈ es, ¬ e.1.Finds) := by
  have hreg := registry_of_run hk h
  refine ⟨hreg.kept hk, fun e he hok slave master hprobe hone => ?_, fun hc e he hfinds => ?_, fun hno => ?_⟩
  · obtain ⟨d, ⟨slave', master', hprobe', rfl⟩, hget⟩ := hreg.recorded e he hok
    obtain ⟨-, -, _, _, hp, hfound⟩ := (hreg.finds e he).mpr hok
    rw [hprobe] at hprobe' hp
    cases hprobe'
    cases hp
    exact ⟨_, hget, Call.record_sameDrive hprobe hfound hone⟩
  · have hok := (hreg.finds e he).mp hfinds
    obtain ⟨d, hmade, hget⟩ := hreg.recorded e he hok
    have hown := hc.dev_id e he hok d hget
    rw [Recorded.dev_id ⟨d, hmade, hget⟩ hget] at hown
    exact hok hown.symm
  · have hnone : ∀ e ∈ es, ¬ e.2 ≠ ATA_DEVICE_INVALID := fun e he hok =>
      hno e he ((hreg.finds e he).mpr hok)
    exact { hreg.kept hk with
      dev_id := fun e he hok => absurd hok (hnone e he)
      drive := fun e he hok => absurd hok (hnone e he) }

/-- An ATA drive alone on its controller, as the master. -/
def drive_alone : Call :=
  ⟨0x1F0, 0x3F6, 14, [0xFF, 0x50, 0, 0, 0, 0, 0, 0, 0, 0, 0x58, 0, 0, 0x58, 0x58, 0x58] ++ List.replicate 256 0,
    fun _ => 0, ⟨⟨0, 0, .INVALID, false, 0, false, false, false, 0⟩, 0, 0, false, 0, 0, 0, 0, 0⟩⟩

/-- `krealloc` that fills a grown table with the record `d`. -/
def regrow (d : Device) (l : List Device) (n : Nat) : List Device :=
  l.take n ++ List.replicate (n - l.length) d

theorem preserves_regrow (d : Device) : Preserves (regrow d) where
  length l n := by
    simp only [regrow, List.length_append, List.length_take, List.length_replicate]
    omega
  get l n i hi hn := by
    rw [regrow, List.getElem?_append_left (by rw [List.length_take]; omega), List.getElem?_take_of_lt hn]

theorem drive_alone_probe : drive_alone.probe =
    some (⟨.INVALID, none⟩, ⟨.ATA, some (List.replicate 256 0)⟩) := by
  decide +kernel

theorem drive_alone_run : ∃ t, Run (Step (regrow drive_alone.device)) Table.start [(drive_alone, 0)] t ∧
    ata_getDeviceInfo t 0 = some (drive_alone.record ⟨.INVALID, none⟩ ⟨.ATA, some (List.replicate 256 0)⟩) := by
  refine ⟨⟨2, some [drive_alone.record ⟨.INVALID, none⟩ ⟨.ATA, some (List.replicate 256 0)⟩]⟩,
    Run.nil.snoc (e := (drive_alone, 0)) ?_, rfl⟩
  unfold Step ide_init
  rw [if_neg (by decide), drive_alone_probe]
  rfl

/-- A disc drive alone on the other controller, as the slave. -/
def disc_alone : Call :=
  ⟨0x170, 0x376, 15, [0x50, 0, 0, 0, 0, 0, 0, 0, 0, 0x58, 0x14, 0xEB, 0x58, 0x58, 0x59, 0x58, 0x58, 0x58] ++
    List.replicate 256 0x1111 ++ [0xFF], fun _ => 0, drive_alone.device⟩

theorem disc_alone_probe : disc_alone.probe =
    some (⟨.ATAPI, some (List.replicate 256 0x1111)⟩, ⟨.INVALID, none⟩) := by
  decide +kernel

/-- A call without ports, as for a channel that is not there. -/
def no_channel : Call := { disc_alone with base_port := 0 }

/-- Both drives are registered, with a call that fails in between. -/
theorem ide_init_records_two : ∃ t, Run (Step (regrow drive_alone.device)) Table.start
      [(drive_alone, 0), (no_channel, ATA_DEVICE_INVALID), (disc_alone, 2)] t ∧
    (ids [(drive_alone, 0), (no_channel, ATA_DEVICE_INVALID), (disc_alone, 2)]).Nodup ∧
    (∃ d, ata_getDeviceInfo t 0 = some d ∧ drive_alone.SameDrive d) ∧
    (∃ d, ata_getDeviceInfo t 2 = some d ∧ disc_alone.SameDrive d) ∧
    ¬ Consistent (regrow drive_alone.device)
      [(drive_alone, 0), (no_channel, ATA_DEVICE_INVALID), (disc_alone, 2)] t := by
  let disk : Device := drive_alone.record ⟨.INVALID, none⟩ ⟨.ATA, some (List.replicate 256 0)⟩
  let disc : Device := disc_alone.record ⟨.ATAPI, some (List.replicate 256 0x1111)⟩ ⟨.INVALID, none⟩
  have h1 : Step (regrow drive_alone.device) Table.start (drive_alone, 0) ⟨2, some [disk]⟩ := by
    unfold Step ide_init
    rw [if_neg (by decide), drive_alone_probe]
    rfl
  have h2 : Step (regrow drive_alone.device) ⟨2, some [disk]⟩ (no_channel, ATA_DEVICE_INVALID)
      ⟨2, some [disk]⟩ := if_pos (.inl rfl)
  have h3 : Step (regrow drive_alone.device) ⟨2, some [disk]⟩ (disc_alone, 2) ⟨4, some [disk, disc]⟩ := by
    unfold Step ide_init
    rw [if_neg (by decide), disc_alone_probe, Option.map_some]
    dsimp only
    rw [if_pos (by decide)]
    rfl
  have hrun := ((Run.nil.snoc h1).snoc h2).snoc h3
  obtain ⟨hkept, hdrive, hiff⟩ := ide_init_records (preserves_regrow _) hrun
  refine ⟨_, hrun, hkept.distinct, hdrive (drive_alone, 0) (by simp) (by decide) _ _ drive_alone_probe (.inl rfl),
    hdrive (disc_alone, 2) (by simp) (by decide) _ _ disc_alone_probe (.inr rfl), fun hc => ?_⟩
  exact hiff.mp hc (drive_alone, 0) (by simp)
    ⟨by decide, by decide, _, _, drive_alone_probe, .inr (by decide)⟩

/-- The drive gets the id 0, and its record says 65535. -/
theorem drive_alone_inconsistent : ∃ t, Run (Step (regrow drive_alone.device)) Table.start [(drive_alone, 0)] t ∧
    (ata_getDeviceInfo t 0).map (·.dev_id) = some 0xFFFF ∧
    ¬ Consistent (regrow drive_alone.device) [(drive_alone, 0)] t := by
  obtain ⟨t, hrun, hget⟩ := drive_alone_run
  refine ⟨t, hrun, ?_, fun hc => ?_⟩
  · rw [hget]
    rfl
  · have hown := hc.dev_id _ List.mem_cons_self (by decide) _ hget
    exact absurd hown (by decide)

end Condor.Ata.Identify
