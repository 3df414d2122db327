import Condor.Ata.Bounds
import Condor.Ata.InUse
import Condor.Ata.TaskFile

/-!
# What success says

When a request returns true. The ATA requests return what the last interrupt
credited to their controller reported, whatever the polls have seen and however
early DRQ went away. The packet requests return true, or the pointer they were
given, whatever became of the packet.
-/

namespace Condor.Ata

open Lib Lib.Prog

variable {m m' : Machine} {d : AtaDevice} {device i : Nat} {b r : Bool} {lba : BitVec 64}
  {sector_count cmd48 cmd28 : BitVec 8} {rest : BitVec 32 → M Bool} {l : List Access} {e : Access}

/-! ## The flag -/

/-- The report of the last interrupt that the handler credits to controller `i`, or `b` before the
first. -/
def verdict (i : Nat) (b : Bool) (log : List Access) : Bool :=
  log.foldl (fun b a => match a with
    | .inb (.irq j) _ v => if j = i then v &&& 0x01 ≠ 0 else b
    | _ => b) b

theorem verdict_append (h : ∀ p v, e ≠ .inb (.irq i) p v) : verdict i b (l ++ [e]) = verdict i b l := by
  unfold verdict
  rw [List.foldl_append, List.foldl_cons, List.foldl_nil]
  cases e with
  | inb w p v =>
    cases w with
    | irq j =>
      have hne : j ≠ i := fun heq => h p v (by rw [heq])
      exact if_neg hne
    | _ => rfl
  | _ => rfl

theorem verdict_irq (p : BitVec 16) (v : BitVec 8) :
    verdict i b (l ++ [.inb (.irq i) p v]) = decide (v &&& 0x01 ≠ 0) := by
  unfold verdict
  rw [List.foldl_append, List.foldl_cons, List.foldl_nil]
  exact if_pos rfl

/-- The flag of controller `i` is the last report. -/
def Reported (i : Nat) (b : Bool) (m : Machine) : Prop :=
  ∃ d, m.record i = some d ∧ d.has_errored = verdict i b m.log

theorem Reported.set_record {j : Nat} {d' : AtaDevice} (h : Reported i b m) (hd : m.record j = some d)
    (hf : d'.has_errored = d.has_errored) : Reported i b (m.set_record j d') := by
  obtain ⟨d₀, hd₀, hv⟩ := h
  unfold Reported
  rw [record_set_record hd]
  by_cases hji : j = i
  · subst hji
    rw [hd] at hd₀
    cases hd₀
    exact ⟨d', if_pos rfl, hf.trans hv⟩
  · exact ⟨d₀, (if_neg hji).trans hd₀, hv⟩

theorem Reported.append (h : Reported i b m) (he : ∀ p v, e ≠ .inb (.irq i) p v) :
    Reported i b (m.append_log e) :=
  h.imp fun _ hd => ⟨hd.1, hd.2.trans (verdict_append he).symm⟩

/-- The handler has read the status `v` of controller `j` and not stored its report yet. -/
def Reporting (i : Nat) (b : Bool) (j : Nat) (v : BitVec 8) (m : Machine) : Prop :=
  ∃ d, m.record j = some d ∧
    if j = i then verdict i b m.log = decide (v &&& 0x01 ≠ 0) else Reported i b m

theorem write_report {j : Nat} {v : BitVec 8} {u : Bool} (hu : u = decide (v &&& 0x01 ≠ 0)) :
    Triple (Reporting i b j v) (write j (·.set_errored u)) (fun _ => Reported i b)
      fun _ => Reported i b := by
  apply write_some
  · rintro m d hd ⟨d₀, -, h⟩
    by_cases hji : j = i
    · subst hji
      rw [if_pos rfl] at h
      exact ⟨d.set_errored u, (record_set_record hd).trans (if_pos rfl), hu.trans h.symm⟩
    · rw [if_neg hji] at h
      obtain ⟨d₁, hd₁, hv⟩ := h
      exact ⟨d₁, (record_set_record hd).trans ((if_neg hji).trans hd₁), hv⟩
  · rintro m ⟨d, hd, -⟩
    exact ⟨d, hd⟩

theorem read_status {j : Nat} {a : BitVec 32} : Triple (fun m => m.record j = some d ∧ Reported i b m)
    (read_port (.irq j) a) (fun v => Reporting i b j v) fun _ => Reported i b := by
  refine read_port_spec (fun m v vs _ h => ⟨d, h.1, ?_⟩) fun m h => h.2
  by_cases hji : j = i
  · subst hji
    rw [if_pos rfl]
    exact verdict_irq _ _
  · rw [if_neg hji]
    apply Reported.append (m := m.set_responses vs) h.2
    intro p v' heq
    cases heq
    exact hji rfl

theorem ata_irq_reported : Keeps (Reported i b) ata_irq := by
  have hkeep (j : Nat) (f : AtaDevice → AtaDevice) (hf : ∀ d, (f d).has_errored = d.has_errored) :
      Keeps (Reported i b) (write j f) :=
    write_spec (fun m d hd h => h.set_record hd (hf d)) fun _ h => h
  refine Triple.bind Triple.get fun m₀ => (record_spec fun _ h => h.2).bind fun d => ?_
  refine (read_status.before fun m h => ⟨h.1, h.2.2⟩).bind fun status =>
    Triple.ite (fun herr => ?_) fun hok => ?_
  · refine Triple.bind (write_report (decide_eq_true herr).symm) fun _ => ?_
    refine Keeps.bind (Keeps.record _) fun d' => Keeps.bind ?_ fun error => ?_
    · exact read_port_spec (fun m v vs _ h => Reported.append (m := m.set_responses vs) h nofun)
        fun _ h => h
    · exact (hkeep _ (·.set_error_info error) fun _ => rfl).bind fun _ =>
        hkeep _ (·.block false) fun _ => rfl
  · refine Triple.bind (write_report (decide_eq_false hok).symm) fun _ => ?_
    exact (hkeep _ (·.set_error_info 0) fun _ => rfl).bind fun _ => hkeep _ (·.block false) fun _ => rfl

theorem steady_reported (i : Nat) (b : Bool) : Steady (Reported i b) where
  irq := ata_irq_reported
  arrivals _ _ h := h
  read m _ _ vs _ h := Reported.append (m := m.set_responses vs) h nofun
  block _ _ _ hd h := h.set_record hd rfl
  current _ _ h := h
  responses _ _ _ _ h := h
  access _ _ ha h := h.append fun p v => ha i p v
  used _ _ _ _ hd h := h.set_record hd rfl
  stored m k v h := Reported.append (m := m) (e := .store k v) h nofun

/-! ## The result of the ATA requests -/

theorem ata_finish_verdict : Triple (Reported (device >>> DEVICE_INFO_SHIFT) b) (ata_finish device)
    (fun r m => r = !verdict (device >>> DEVICE_INFO_SHIFT) b m.log) fun _ _ => True := by
  have hI := steady_reported (device >>> DEVICE_INFO_SHIFT) b
  refine (hI.toCalm.ata_finish (fun m d hd h => hI.used m _ d false hd h) (fun _ _ _ => trivial)
    fun _ _ _ => trivial).after fun r m h => ?_
  obtain ⟨⟨d₀, hd₀, hv⟩, d, hd, hr⟩ := h
  rw [hd₀] at hd
  cases hd
  rw [← hr, hv]

theorem read_rest_verdict (base : BitVec 32) : Triple (Reported (device >>> DEVICE_INFO_SHIFT) b)
    (read_rest device base) (fun r m => r = !verdict (device >>> DEVICE_INFO_SHIFT) b m.log)
    fun _ _ => True := by
  have hI := steady_reported (device >>> DEVICE_INFO_SHIFT) b
  refine hI.waitForIRQ.returns.bind fun _ => ?_
  exact (Keeps.loop (hI.read_word base) 0).returns.bind fun _ => ata_finish_verdict

theorem write_rest_verdict (base : BitVec 32) : Triple (Reported (device >>> DEVICE_INFO_SHIFT) b)
    (write_rest device base) (fun r m => r = !verdict (device >>> DEVICE_INFO_SHIFT) b m.log)
    fun _ _ => True := by
  have hI := steady_reported (device >>> DEVICE_INFO_SHIFT) b
  refine (Keeps.loop (hI.write_word base) 0).returns.bind fun _ => ?_
  refine (Keeps.record _).returns.bind fun _ => ?_
  exact hI.sending.keeps_outb.returns.bind fun _ => ata_finish_verdict

/-- An ATA request returns true if it has been let through and the last report is no error. -/
theorem ata_start_verdict (hd : m.record (device >>> DEVICE_INFO_SHIFT) = some d)
    (hlt : device < m.controller_index) (hlog : m.log = [])
    (hrest : ∀ base, Triple (Reported (device >>> DEVICE_INFO_SHIFT) d.has_errored) (rest base)
      (fun r m => r = !verdict (device >>> DEVICE_INFO_SHIFT) d.has_errored m.log) fun _ _ => True)
    (hrun : (ata_start device lba sector_count cmd48 cmd28 rest).run m = (.ok r, m')) :
    r = true ↔ ¬ Refused d device lba sector_count ∧ d.base_port ≠ 0 ∧
      verdict (device >>> DEVICE_INFO_SHIFT) d.has_errored m'.log = false := by
  have hI := steady_reported (device >>> DEVICE_INFO_SHIFT) d.has_errored
  apply Returned.of_run (Q := fun r m' => r = true ↔ ¬ Refused d device lba sector_count ∧ d.base_port ≠ 0 ∧
    verdict (device >>> DEVICE_INFO_SHIFT) d.has_errored m'.log = false) ?_ hrun
  apply ata_start_rule hd hlt hI.sending.toPlain hI.sending.toPlain
  · refine ⟨d, hd, ?_⟩
    rw [hlog]
    rfl
  · intro m₁ d₁ hd₁ h
    exact hI.used m₁ _ d₁ true hd₁ h
  · intro hout m₁ _
    refine ⟨nofun, fun h => ?_⟩
    rcases hout with href | hzero
    · exact absurd href h.1
    · exact absurd hzero h.2.1
  · exact fun _ _ _ => trivial
  · exact fun _ _ _ => trivial
  · intro href hne
    refine (hrest d.base_port).after fun r m₁ h => ?_
    show r = true ↔ _
    rw [h, Bool.not_eq_true']
    exact ⟨fun hv => ⟨href, hne, hv⟩, fun hall => hall.2.2⟩

theorem ata_start_turned {turn : Turn} (hd : m.record (device >>> DEVICE_INFO_SHIFT) = some d)
    (hlt : device < m.controller_index) (hlog : m.log = [])
    (hrest : ∀ base, Triple (Marked []) (rest base) (fun _ => Turned [] turn) fun _ => Stopped [] turn)
    (hrun : (ata_start device lba sector_count cmd48 cmd28 rest).run m = (.ok r, m')) : Turned [] turn m' := by
  have hmoved : Transferred [] turn ((ata_start device lba sector_count cmd48 cmd28 rest).run m).1
      ((ata_start device lba sector_count cmd48 cmd28 rest).run m).2 :=
      ata_start_transferred hd hlt hlog hrest
  rw [hrun] at hmoved
  exact hmoved

/-! ## What has been done -/

/-- The access is the write of a command. -/
def Access.isCommand (d : AtaDevice) : Access → Bool
  | .outb p _ => p = port (d.base_port + ATA_COMMAND)
  | _ => false

/-- No status of the device that has been read since the first command, by whomever, has ERR set. -/
def Clean (d : AtaDevice) (log : List Access) : Prop :=
  ∀ why p v, Access.inb why p v ∈ log.dropWhile (fun a => !a.isCommand d) →
    p = port d.alt_port ∨ p = port (d.base_port + ATA_STATUS) → v &&& 0x01 = 0

/-- The command has been written, no error has been reported for it, and `n` words have gone through
the data port and the buffer, `port_words` and `buffer_words` of them. -/
structure Done (d : AtaDevice) (command : BitVec 8) (n port_words buffer_words : Nat)
    (log : List Access) :
    Prop where
  issued : Access.outb (port (d.base_port + ATA_COMMAND)) command ∈ log
  clean : Clean d log
  port_words : n ≤ port_words
  buffer_words : n ≤ buffer_words

/-- The device shows no error and asks for `n` words. -/
def Cooperates (d : AtaDevice) (n : Nat) (log : List Access) : Prop := Clean d log ∧ n ≤ polls log

theorem mem_writes {p : BitVec 16} {v : BitVec 8} : (p, v) ∈ writes l ↔ Access.outb p v ∈ l := by
  unfold writes
  rw [List.mem_filterMap]
  constructor
  · rintro ⟨e, he, heq⟩
    cases e with
    | outb p' v' =>
      cases heq
      exact he
    | _ => cases heq
  · intro he
    exact ⟨_, he, rfl⟩

theorem ata_start_issued (hd : m.record (device >>> DEVICE_INFO_SHIFT) = some d)
    (hlt : device < m.controller_index) (hlog : m.log = [])
    (hrest : ∀ I base, Steady I → Keeps I (rest base))
    (hrun : (ata_start device lba sector_count cmd48 cmd28 rest).run m = (.ok true, m')) :
    Access.outb (port (d.base_port + ATA_COMMAND))
      (if d.lba48_support then cmd48 else cmd28) ∈ m'.log := by
  have hended := ata_start_ended lba sector_count cmd48 cmd28 hd hlt hlog hrest
  rw [hrun] at hended
  rcases hended with ⟨-, hne⟩ | ⟨-, hw⟩
  · exact absurd rfl hne
  have hmem : (port (d.base_port + ATA_COMMAND), if d.lba48_support then cmd48 else cmd28) ∈ writes m'.log := by
    refine hw.subset ?_
    rw [command_writes_eq]
    exact List.mem_append_right _ (List.mem_singleton_self _)
  exact mem_writes.mp hmem

/-- What the result of an ATA request says, once its words have been counted. -/
theorem ata_start_done (hm : Indexed m) (hlog : m.log = []) {n p w : Nat}
    (hsteady : ∀ I base, Steady I → Keeps I (rest base))
    (hverdict : ∀ b base, Triple (Reported (device >>> DEVICE_INFO_SHIFT) b) (rest base)
      (fun r m => r = !verdict (device >>> DEVICE_INFO_SHIFT) b m.log) fun _ _ => True)
    (hrun : (ata_start device lba sector_count cmd48 cmd28 rest).run m = (.ok r, m'))
    (hcount : ∀ d, m.record (device >>> DEVICE_INFO_SHIFT) = some d → p = polls m'.log ∧ w = polls m'.log) :
    (r = true → ∃ d, m.record (device >>> DEVICE_INFO_SHIFT) = some d ∧
      Done d (if d.lba48_support then cmd48 else cmd28) n p w m'.log) ↔
    ∀ d, m.record (device >>> DEVICE_INFO_SHIFT) = some d → Refused d device lba sector_count ∨
      d.base_port = 0 ∨ verdict (device >>> DEVICE_INFO_SHIFT) d.has_errored m'.log = true ∨
      Cooperates d n m'.log := by
  cases hd : m.record (device >>> DEVICE_INFO_SHIFT) with
  | none =>
    have hfalse : r = false := by
      have hnothing : Nothing (ata_start device lba sector_count cmd48 cmd28 rest) m :=
        ata_start_nothing hd
      rcases hnothing with h | h
      · rw [hrun] at h
        cases h
        rfl
      · rw [hrun] at h
        cases h
    exact ⟨fun _ _ => nofun, fun _ htrue => by rw [hfalse] at htrue; cases htrue⟩
  | some d =>
    have hiff := ata_start_verdict hd (hm.lt hd) hlog (hverdict d.has_errored) hrun
    obtain ⟨hp, hw⟩ := hcount d hd
    constructor
    · intro hdone d' hd'
      cases hd'
      by_contra hc
      obtain ⟨href, hbase, hv, hco⟩ := by simpa only [not_or] using hc
      obtain ⟨d₀, hd₀, hall⟩ := hdone (hiff.mpr ⟨href, hbase, Bool.eq_false_of_not_eq_true hv⟩)
      cases hd₀
      exact hco ⟨hall.clean, hp ▸ hall.port_words⟩
    · intro hcond htrue
      obtain ⟨href, hbase, hv⟩ := hiff.mp htrue
      subst htrue
      have hco : Cooperates d n m'.log := by
        rcases hcond d rfl with h | h | h | h
        · exact absurd h href
        · exact absurd h hbase
        · rw [hv] at h
          cases h
        · exact h
      refine ⟨d, rfl, ata_start_issued hd (hm.lt hd) hlog hsteady hrun, hco.1, ?_, ?_⟩
      · exact hp ▸ hco.2
      · exact hw ▸ hco.2

/-! ## The packet requests -/

theorem atapi_sendCommand_issued {command : Nat → BitVec 8} {command_length : BitVec 8}
    (hd : m.record (device >>> DEVICE_INFO_SHIFT) = some d) (hlt : device < m.controller_index)
    (hnot : ¬ Declined d) (hrun : (atapi_sendCommand device command command_length).run m = (.ok r, m')) :
    Access.outb (port (d.base_port + ATA_COMMAND)) ATA_PACKET ∈ m'.log := by
  have htrue : Steady fun _ => True := .of_log (fun _ => True) fun _ _ _ => trivial
  have hmem : Steady fun m => Access.outb (port (d.base_port + ATA_COMMAND)) ATA_PACKET ∈ m.log :=
    .of_log (Access.outb (port (d.base_port + ATA_COMMAND)) ATA_PACKET ∈ ·) fun _ _ h =>
      List.mem_append_left _ h
  apply Returned.of_run (Q := fun _ m =>
    Access.outb (port (d.base_port + ATA_COMMAND)) ATA_PACKET ∈ m.log) ?_ hrun
  apply atapi_sendCommand_rule hd hlt htrue.sending.toPlain htrue.sending.toPlain hmem.sending
  · trivial
  · exact fun _ _ _ _ h => h
  · intro m₁ _
    exact List.mem_append_right _ (List.mem_singleton_self _)
  · exact fun hdec => absurd hdec hnot
  · exact fun _ _ _ => trivial
  · exact fun _ _ _ => trivial
  · exact fun _ _ _ => trivial
  · intro _ alt_status n
    exact (Keeps.loop (hmem.try_again alt_status _ n) 0).returns

/-- A packet request ends in its checks, or returns `b` after a packet that reads. -/
theorem atapi_start_cases {packet : Nat → BitVec 8} (hm : Indexed m)
    (hlog : m.log = []) (hread : atapi_getCommandType (packet 0) = .READ)
    (hrun : (atapi_start device lba sector_count (atapi_rest device packet b)).run m = (.ok r, m')) :
    (r = false ∧ ∀ d, m.record (device >>> DEVICE_INFO_SHIFT) = some d → AtapiRefused d lba sector_count) ∨
    ∃ d, m.record (device >>> DEVICE_INFO_SHIFT) = some d ∧ ¬ AtapiRefused d lba sector_count ∧ r = b ∧
      ((Declined d ∧ Marked [] m') ∨ (¬ Declined d ∧
        (∃ s, Turned (List.replicate s .send) read_turn m') ∧
        Access.outb (port (d.base_port + ATA_COMMAND)) ATA_PACKET ∈ m'.log)) := by
  cases hd : m.record (device >>> DEVICE_INFO_SHIFT) with
  | none =>
    have hnothing : Nothing (atapi_start device lba sector_count (atapi_rest device packet b)) m :=
      atapi_start_nothing hd
    rcases hnothing with h | h
    · rw [hrun] at h
      cases h
      exact .inl ⟨rfl, nofun⟩
    · rw [hrun] at h
      cases h
  | some d =>
    rw [atapi_start_run hd] at hrun
    by_cases href : AtapiRefused d lba sector_count
    · rw [if_pos href] at hrun
      cases hrun
      exact .inl ⟨rfl, fun _ heq => by cases heq; exact href⟩
    · rw [if_neg href, atapi_rest_run] at hrun
      have hmoved := atapi_sendCommand_transferred 12 hd (hm.lt hd) hlog hread
      cases hsend : (atapi_sendCommand device packet 12).run m with
      | mk e m₁ =>
        rw [hsend] at hrun hmoved
        cases e with
        | error e => cases hrun
        | ok u =>
          cases hrun
          refine .inr ⟨d, rfl, href, rfl, hmoved.imp id fun h => ⟨h.1, h.2, ?_⟩⟩
          exact atapi_sendCommand_issued hd (hm.lt hd) h.1 hsend

theorem Marked.nothing (h : Marked [] m) : words m.log = 0 ∧ loads m.log = [] := by
  unfold Marked at h
  unfold words loads
  rw [h]
  exact ⟨rfl, rfl⟩

theorem AtapiRefused.pos (h : ¬ AtapiRefused d lba sector_count) : 0 < 1024 * sector_count.toNat := by
  have hne : sector_count.toNat ≠ 0 := fun hz => h (.inl (BitVec.eq_of_toNat_eq hz))
  omega

theorem atapi_readSectors_done (hm : Indexed m) (hlog : m.log = [])
    (hrun : (atapi_readSectors device lba sector_count).run m = (.ok r, m')) :
    (r = true → ∃ d, m.record (device >>> DEVICE_INFO_SHIFT) = some d ∧
      Done d ATA_PACKET (1024 * sector_count.toNat) (words m'.log) (stores m'.log).length m'.log) ↔
    ∀ d, m.record (device >>> DEVICE_INFO_SHIFT) = some d → AtapiRefused d lba sector_count ∨
      (¬ Declined d ∧ Cooperates d (1024 * sector_count.toNat) m'.log) := by
  rw [atapi_readSectors_eq] at hrun
  rcases atapi_start_cases hm hlog (rw_packet_read (.inl rfl)) hrun with
    ⟨rfl, href⟩ | ⟨d, hd, href, rfl, hmoved⟩
  · exact ⟨fun _ d hd => .inl (href d hd), fun _ => nofun⟩
  have hpos := AtapiRefused.pos href
  rcases hmoved with ⟨hdec, hnone⟩ | ⟨hnot, ⟨s, hturned⟩, hissued⟩
  · constructor
    · intro hdone
      obtain ⟨d₀, -, hall⟩ := hdone rfl
      have hwords := hall.port_words
      rw [hnone.nothing.1] at hwords
      omega
    · intro hcond
      exact absurd hdec ((hcond d hd).resolve_left href).1
  · obtain ⟨hpolls, hstores, -⟩ := hturned.read
    have hlen : (stores m'.log).length = words m'.log := by rw [hstores, List.length_range]
    constructor
    · intro hdone d' hd'
      obtain ⟨d₀, hd₀, hall⟩ := hdone rfl
      rw [hd₀] at hd'
      cases hd'
      rw [hd₀] at hd
      cases hd
      exact .inr ⟨hnot, hall.clean, hpolls ▸ hall.port_words⟩
    · intro hcond _
      have hco := ((hcond d hd).resolve_left href).2
      have hwords : 1024 * sector_count.toNat ≤ words m'.log := hpolls ▸ hco.2
      exact ⟨d, hd, hissued, hco.1, hwords, hlen.symm ▸ hwords⟩

theorem atapi_writeSectors_done (hm : Indexed m) (hlog : m.log = []) {destination : BitVec 32}
    (hrun : (atapi_writeSectors device lba sector_count destination).run m = (.ok r, m')) :
    (r = true → ∃ d, m.record (device >>> DEVICE_INFO_SHIFT) = some d ∧
      Done d ATA_PACKET (1024 * sector_count.toNat) (sends m'.log) (loads m'.log).length m'.log) ↔
    ∀ d, m.record (device >>> DEVICE_INFO_SHIFT) = some d → AtapiRefused d lba sector_count ∨
      destination = 0 := by
  rw [atapi_writeSectors_eq] at hrun
  rcases atapi_start_cases hm hlog (rw_packet_read (.inr rfl)) hrun with
    ⟨rfl, href⟩ | ⟨d, hd, href, rfl, hmoved⟩
  · exact ⟨fun _ d hd => .inl (href d hd), fun _ => nofun⟩
  have hpos := AtapiRefused.pos href
  have hloads : loads m'.log = [] := by
    rcases hmoved with ⟨-, hnone⟩ | ⟨-, ⟨s, hturned⟩, -⟩
    · exact hnone.nothing.2
    · exact hturned.read.2.2
  constructor
  · intro hdone d' hd'
    by_contra hc
    obtain ⟨d₀, -, hall⟩ := hdone (decide_eq_true fun hz => hc (.inr hz))
    have hwords := hall.buffer_words
    rw [hloads, List.length_nil] at hwords
    omega
  · intro hcond htrue
    exact absurd ((hcond d hd).resolve_left href) (of_decide_eq_true htrue)

/-- **Success.** For every request and every run of it that returns, when a result of true comes
with the command issued, no error reported and all words moved. -/
theorem true_only_if_done (hm : Indexed m) (hlog : m.log = []) (device : Nat) (lba : BitVec 64)
    (sector_count : BitVec 8) (destination : BitVec 32) :
    (∀ r m', (ata_readSectors device lba sector_count).run m = (.ok r, m') →
      ((r = true → ∃ d, m.record (device >>> DEVICE_INFO_SHIFT) = some d ∧
        Done d (if d.lba48_support then ATA_READ_SECTORS_EXT else ATA_READ_SECTORS)
          (256 * sector_count.toNat)
          (words m'.log) (stores m'.log).length m'.log) ↔
      ∀ d, m.record (device >>> DEVICE_INFO_SHIFT) = some d → Refused d device lba sector_count ∨
        d.base_port = 0 ∨ verdict (device >>> DEVICE_INFO_SHIFT) d.has_errored m'.log = true ∨
        Cooperates d (256 * sector_count.toNat) m'.log)) ∧
    (∀ r m', (ata_writeSectors device lba sector_count).run m = (.ok r, m') →
      ((r = true → ∃ d, m.record (device >>> DEVICE_INFO_SHIFT) = some d ∧
        Done d (if d.lba48_support then ATA_WRITE_SECTORS_EXT else ATA_WRITE_SECTORS)
          (256 * sector_count.toNat)
          (sends m'.log) (loads m'.log).length m'.log) ↔
      ∀ d, m.record (device >>> DEVICE_INFO_SHIFT) = some d → Refused d device lba sector_count ∨
        d.base_port = 0 ∨ verdict (device >>> DEVICE_INFO_SHIFT) d.has_errored m'.log = true ∨
        Cooperates d (256 * sector_count.toNat) m'.log)) ∧
    (∀ r m', (atapi_readSectors device lba sector_count).run m = (.ok r, m') →
      ((r = true → ∃ d, m.record (device >>> DEVICE_INFO_SHIFT) = some d ∧
        Done d ATA_PACKET (1024 * sector_count.toNat) (words m'.log) (stores m'.log).length m'.log) ↔
      ∀ d, m.record (device >>> DEVICE_INFO_SHIFT) = some d → AtapiRefused d lba sector_count ∨
        (¬ Declined d ∧ Cooperates d (1024 * sector_count.toNat) m'.log))) ∧
    ∀ r m', (atapi_writeSectors device lba sector_count destination).run m = (.ok r, m') →
      ((r = true → ∃ d, m.record (device >>> DEVICE_INFO_SHIFT) = some d ∧
        Done d ATA_PACKET (1024 * sector_count.toNat) (sends m'.log) (loads m'.log).length m'.log) ↔
      ∀ d, m.record (device >>> DEVICE_INFO_SHIFT) = some d → AtapiRefused d lba sector_count ∨
        destination = 0) := by
  refine ⟨fun r m' hrun => ?_, fun r m' hrun => ?_, fun r m' hrun => ?_, fun r m' hrun => ?_⟩
  · rw [ata_readSectors_eq] at hrun
    apply ata_start_done hm hlog (fun _ base hI => hI.read_rest base) (fun _ => read_rest_verdict) hrun
    intro d hd
    obtain ⟨hpolls, hstores, -⟩ := (ata_start_turned hd (hm.lt hd) hlog read_rest_turned hrun).read
      (s := 0)
    rw [hstores, List.length_range]
    exact ⟨hpolls.symm, hpolls.symm⟩
  · rw [ata_writeSectors_eq] at hrun
    apply ata_start_done hm hlog (fun _ base hI => hI.write_rest base) (fun _ => write_rest_verdict) hrun
    intro d hd
    obtain ⟨hsends, hloads⟩ := (ata_start_turned hd (hm.lt hd) hlog write_rest_turned hrun).write
    rw [hloads, List.length_range]
    exact ⟨hsends, rfl⟩
  · exact atapi_readSectors_done hm hlog hrun
  · exact atapi_writeSectors_done hm hlog hrun

/-- A packet write returns true, and has not moved a word. -/
theorem nothing_written :
    let m := cdrom_found [0, 0, 0, 0, 0, 1, 0, 0, 0, 0, 0, 0, 1, 0]
    let l := ((atapi_writeSectors 0 0 1 1).run m).2.log
    ¬ ∃ d, m.record 0 = some d ∧ Done d ATA_PACKET 1024 (sends l) (loads l).length l := by
  intro m l hdone
  have hrun : (atapi_writeSectors 0 0 1 1).run m = (.ok true, ((atapi_writeSectors 0 0 1 1).run m).2) := rfl
  have hiff := (true_only_if_done (m := m) rfl rfl 0 0 1 1).2.2.2 true _ hrun
  rcases hiff.mp (fun _ => hdone) _ rfl with href | hnull
  · exact absurd href (by decide)
  · exact absurd hnull (by decide)

/-- The drive takes DRQ away at once, and the read of a sector returns true without a word of it. -/
theorem nothing_read : ∃ m', (ata_readSectors 0 0 1).run (drive_found 0) = (.ok true, m') ∧
    words m'.log = 0 ∧
    ¬ ∃ d, (drive_found 0).record 0 = some d ∧
      Done d (if d.lba48_support then ATA_READ_SECTORS_EXT else ATA_READ_SECTORS) 256 (words m'.log)
        (stores m'.log).length m'.log := by
  obtain ⟨m', hrun, hw⟩ := drive_found_words 0
  refine ⟨m', hrun, hw, ?_⟩
  rintro ⟨d, -, hdone⟩
  have hwords := hdone.port_words
  rw [hw] at hwords
  omega

end Condor.Ata
