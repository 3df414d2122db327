import Condor.Ata.Rules
import Condor.Ata.Reject
import Condor.Lib.Runs

/-!
# Interrupts and waits

Interrupts of several controllers that arrive whenever they like. `Effect` is
what the code does to the state that the handler and the waits share, step by
step, and `Step` adds which command an interrupt belongs to: each command that
is issued raises one interrupt, and that one arrives once, at any later time.
The handler credits it to the controller that was switched to last, so it
reaches its own only if the switches allow, and a wait takes any interrupt of
its controller for its own (`attributed_of_orderly`).
-/

namespace Condor.Ata

open Lib Lib.Prog

variable {m m' : Machine} {d : AtaDevice} {i j device : Nat}

/-! ## The handler -/

/-- The record after an interrupt with the status `status`. -/
def AtaDevice.report (d : AtaDevice) (status error : BitVec 8) : AtaDevice :=
  ((d.set_errored (status &&& 0x01 ≠ 0)).set_error_info (if status &&& 0x01 ≠ 0 then error else 0)).block false

/-- The records are `r`, and `current` has been switched to. -/
def Shows (r : Nat → Option AtaDevice) (current : BitVec 8) (m : Machine) : Prop :=
  m.record = r ∧ m.current_controller = current

variable {r : Nat → Option AtaDevice} {current : BitVec 8}

theorem write_shows {f : AtaDevice → AtaDevice} (hd : r i = some d) :
    Triple (Shows r current) (write i f) (fun _ => Shows (Function.update r i (some (f d))) current)
      fun _ _ => True := by
  refine write_spec (fun m d' hd' h => ⟨?_, h.2⟩) fun _ _ => trivial
  have heq : d' = d := by
    rw [h.1, hd] at hd'
    exact (Option.some_inj.mp hd').symm
  subst heq
  funext k
  rw [record_set_record hd', Function.update_apply, h.1]
  simp only [eq_comm]

theorem record_shows (hd : r i = some d) :
    Triple (Shows r current) (record i) (fun d' m => d' = d ∧ Shows r current m) fun _ _ => True := by
  refine (record_spec (E := fun _ _ => True) fun _ _ => trivial).after fun d' m h => ⟨?_, h.2⟩
  rw [← Option.some_inj, ← h.1, h.2.1, hd]

theorem read_port_shows {why : Why} {a : BitVec 32} :
    Triple (Shows r current) (read_port why a) (fun _ => Shows r current) fun _ _ => True :=
  read_port_spec (fun _ _ _ _ h => h) fun _ _ => trivial

/-- The handler changes one record, that of the controller that has been switched to. -/
theorem ata_irq_shows {j : Nat} (hj : current.toNat >>> 1 = j) (hd : r j = some d) :
    Triple (Shows r current) ata_irq
      (fun _ m => ∃ status error, Shows (Function.update r j (some (d.report status error))) current m)
      fun _ _ => True := by
  refine Triple.bind Triple.get fun m₀ => ?_
  refine Triple.assume (fun m h => (h.1 ▸ h.2.2 : m₀.current_controller = current)) fun hcurrent => ?_
  rw [hcurrent, hj]
  refine ((record_shows hd).before fun m h => h.2).bind fun d' => ?_
  refine (read_port_shows.before fun m h => h.2).bind fun status =>
    Triple.ite (fun herr => ?_) fun hok => ?_
  · refine (write_shows hd).bind fun _ => (record_shows (Function.update_self ..)).bind fun d₁ => ?_
    refine (read_port_shows.before fun m h => h.2).bind fun error => ?_
    refine (write_shows (Function.update_self ..)).bind fun _ => ?_
    refine (write_shows (Function.update_self ..)).after fun _ m h => ⟨status, error, ?_⟩
    rw [Function.update_idem, Function.update_idem] at h
    rw [AtaDevice.report, decide_eq_true herr, if_pos herr]
    exact h
  · refine (write_shows hd).bind fun _ => (write_shows (Function.update_self ..)).bind fun _ => ?_
    refine (write_shows (Function.update_self ..)).after fun _ m h => ⟨status, 0, ?_⟩
    rw [Function.update_idem, Function.update_idem] at h
    rw [AtaDevice.report, decide_eq_false hok, if_neg hok]
    exact h

/-- What an interrupt does, whose-ever it is. -/
theorem ata_irq_run (h : ata_irq.run m = (.ok (), m')) :
    ∃ d status error, m.record (m.current_controller.toNat >>> 1) = some d ∧
      m'.record = Function.update m.record (m.current_controller.toNat >>> 1)
        (some (d.report status error)) ∧
      m'.current_controller = m.current_controller := by
  cases hd : m.record (m.current_controller.toNat >>> 1) with
  | none =>
    have hwild : (record (m.current_controller.toNat >>> 1)).run m = (.error .wild, m) := by
      rw [record, bind_ok (get_run m), hd, stop_run]
    unfold ata_irq at h
    rw [bind_ok (get_run m), bind_error hwild] at h
    cases h
  | some d =>
    obtain ⟨status, error, hrecord, hcurrent⟩ := (ata_irq_shows rfl hd).ok ⟨rfl, rfl⟩ h
    exact ⟨d, status, error, rfl, hrecord, hcurrent⟩

/-! ## Effects -/

/-- What the handler and the waits share of a record. -/
def AtaDevice.flags (d : AtaDevice) : Bool × Bool × BitVec 8 :=
  (d.is_blocked, d.has_errored, d.error_info)

/-- The flags of all records, and what has been switched to, are the same. -/
def SameFlags (m m' : Machine) : Prop :=
  m'.current_controller = m.current_controller ∧
    ∀ i, (m'.record i).map AtaDevice.flags = (m.record i).map AtaDevice.flags

/-- One access to what the handler and the waits share. -/
inductive Effect : Machine → Machine → Prop
  | register (m : Machine) (base_port alt_port : BitVec 32) (p : Probe) :
      Effect m (ide_init m base_port alt_port p).2
  | switch (m : Machine) (device : Nat) : Effect m (m.set_current device)
  | arm {m : Machine} {i : Nat} {d : AtaDevice} (hd : m.record i = some d) :
      Effect m (m.set_record i (d.block true))
  | irq {m : Machine} {r : Except Stop Unit} {m' : Machine} (h : ata_irq.run m = (r, m')) : Effect m m'
  | quiet {m m' : Machine} (h : SameFlags m m') : Effect m m'

theorem SameFlags.of_controllers (hc : m'.controllers = m.controllers)
    (hcurrent : m'.current_controller = m.current_controller) : SameFlags m m' :=
  ⟨hcurrent, fun i => by rw [Machine.record, Machine.record, hc]⟩

theorem SameFlags.use (hd : m.record i = some d) (b : Bool) : SameFlags m (m.set_record i (d.use b)) := by
  refine ⟨rfl, fun j => ?_⟩
  rw [record_set_record hd]
  by_cases hij : i = j
  · subst hij
    rw [if_pos rfl, hd]
    rfl
  · rw [if_neg hij]

/-- `m'` is reached from `m` by effects. -/
abbrev Effects (m m' : Machine) : Prop := Relation.ReflTransGen Effect m m'

theorem Effects.quiet {m₀ : Machine} (h : Effects m₀ m) (hs : SameFlags m m') : Effects m₀ m' :=
  h.tail (.quiet hs)

theorem steady_effects (m₀ : Machine) : Steady (Effects m₀) where
  irq := .of_run fun _ h => h.tail (.irq rfl)
  arrivals _ _ h := h.quiet (.of_controllers rfl rfl)
  read _ _ _ _ _ h := h.quiet (.of_controllers rfl rfl)
  block _ _ _ hd h := h.tail (.arm hd)
  current m device h := h.tail (.switch m device)
  responses _ _ _ _ h := h.quiet (.of_controllers rfl rfl)
  access _ _ _ h := h.quiet (.of_controllers rfl rfl)
  used _ _ _ b hd h := h.quiet (.use hd b)
  stored _ _ _ h := h.quiet (.of_controllers rfl rfl)

/-- What a request does to the flags is a number of effects, whatever the ports answer and whenever
interrupts arrive. -/
theorem requests_effects (m : Machine) (device : Nat) (lba : BitVec 64) (sector_count : BitVec 8) :
    (∀ command data_length, Effects m ((ata_sendCommand device command data_length).run m).2) ∧
    Effects m ((ata_readSectors device lba sector_count).run m).2 ∧
    Effects m ((ata_writeSectors device lba sector_count).run m).2 ∧
    (∀ command command_length, Effects m ((atapi_sendCommand device command command_length).run m).2) ∧
    Effects m ((atapi_readSectors device lba sector_count).run m).2 ∧
    ∀ destination, Effects m ((atapi_writeSectors device lba sector_count destination).run m).2 := by
  have hI := steady_effects m
  refine ⟨fun command n => ?_, ?_, ?_, fun command n => ?_, ?_, fun destination => ?_⟩
  · exact (hI.ata_sendCommand command n).run .refl
  · exact (hI.ata_start hI.read_rest).run .refl
  · exact (hI.ata_start hI.write_rest).run .refl
  · exact (hI.atapi_sendCommand command n).run .refl
  · exact hI.atapi_readSectors.run .refl
  · exact (hI.atapi_writeSectors destination).run .refl

/-! ## Commands and their interrupts -/

/-- The machine with the number of commands issued to each controller, the interrupts that have been
raised and have not arrived, as controller and command, and the one that has cleared each
`is_blocked` last. -/
structure System where
  machine : Machine
  issued : Nat → Nat
  pending : List (Nat × Nat)
  cleared : Nat → Option (Nat × Nat)

/-- `leave` is the end of the loop of `waitForIRQ`: completed, when it has found `is_blocked` clear,
or early, by timeout or a status with ERR. `arm` is the store behind the loop. -/
inductive Event where
  | register (base_port alt_port : BitVec 32) (p : Probe)
  | switch (device : Nat)
  | issue (c : Nat)
  | leave (device : Nat) (completed : Bool)
  | arm (device : Nat)
  | irq (c k : Nat)
  | quiet

inductive Step : System → Event → System → Prop
  | register (s : System) (base_port alt_port : BitVec 32) (p : Probe) :
      Step s (.register base_port alt_port p) { s with machine := (ide_init s.machine base_port alt_port p).2 }
  | switch {s : System} {device : Nat} (hlt : device < s.machine.controller_index) :
      Step s (.switch device) { s with machine := s.machine.set_current device }
  | issue {s : System} {c : Nat} {d : AtaDevice} (hd : s.machine.record c = some d) :
      Step s (.issue c) { s with
        issued := Function.update s.issued c (s.issued c + 1)
        pending := (c, s.issued c + 1) :: s.pending }
  | leave {s : System} {device : Nat} {completed : Bool} {d : AtaDevice}
      (hd : s.machine.record (device >>> DEVICE_INFO_SHIFT) = some d)
      (hb : completed = true → d.is_blocked = false) :
      Step s (.leave device completed) s
  | arm {s : System} {device : Nat} {d : AtaDevice}
      (hd : s.machine.record (device >>> DEVICE_INFO_SHIFT) = some d) :
      Step s (.arm device) { s with
        machine := s.machine.set_record (device >>> DEVICE_INFO_SHIFT) (d.block true) }
  | irq {s : System} {c k : Nat} {m : Machine} (hp : (c, k) ∈ s.pending)
      (h : ata_irq.run s.machine = (.ok (), m)) :
      Step s (.irq c k) { s with
        machine := m
        pending := s.pending.erase (c, k)
        cleared := Function.update s.cleared (s.machine.current_controller.toNat >>> 1) (some (c, k)) }
  | quiet {s : System} {m : Machine} (h : SameFlags s.machine m) : Step s .quiet { s with machine := m }

variable {s s' s₀ : System} {e : Event} {es : List Event}

/-- The interrupt of a command changes the record of its own controller and no other, and a wait is
completed by the interrupt of the last command of its controller. -/
def Attributed (s : System) (e : Event) (s' : System) : Prop :=
  match e with
  | .irq c _ => ∃ d status error, s.machine.record c = some d ∧
      s'.machine.record = Function.update s.machine.record c (some (d.report status error))
  | .leave device true => s.cleared (device >>> DEVICE_INFO_SHIFT) =
      some (device >>> DEVICE_INFO_SHIFT, s.issued (device >>> DEVICE_INFO_SHIFT))
  | _ => True

/-- An interrupt arrives while its controller is the one that has been switched to, and belongs to
its last command. A command is issued while `is_blocked` is set. -/
def Orderly (s : System) (e : Event) : Prop :=
  match e with
  | .irq c k => s.machine.current_controller.toNat >>> 1 = c ∧ k = s.issued c
  | .issue c => ∀ d, s.machine.record c = some d → d.is_blocked = true
  | _ => True

/-- A flag that is clear has been cleared by the last command of its controller. -/
def ClearedByLast (s : System) : Prop :=
  ∀ c d, s.machine.record c = some d → d.is_blocked = false → s.cleared c = some (c, s.issued c)

theorem Step.effects (h : Step s e s') : Effects s.machine s'.machine := by
  cases h with
  | register base_port alt_port p => exact .single (.register _ _ _ _)
  | switch hlt => exact .single (.switch _ _)
  | issue hd => exact .refl
  | leave hd hb => exact .refl
  | arm hd => exact .single (.arm hd)
  | irq hp h => exact .single (.irq h)
  | quiet h => exact .single (.quiet h)

/-- A run of the system is a number of effects of the code. -/
theorem run_effects (h : Run Step s es s') : Effects s.machine s'.machine :=
  h.project fun _ _ _ => Step.effects

/-- The step with a label, where there is one. -/
def System.next (s : System) : Event → Option System
  | .register base_port alt_port p => some { s with machine := (ide_init s.machine base_port alt_port p).2 }
  | .switch device =>
    if device < s.machine.controller_index then some { s with machine := s.machine.set_current device } else none
  | .issue c => (s.machine.record c).map fun _ => { s with
      issued := Function.update s.issued c (s.issued c + 1)
      pending := (c, s.issued c + 1) :: s.pending }
  | .leave device completed => (s.machine.record (device >>> DEVICE_INFO_SHIFT)).bind fun d =>
      if completed = true → d.is_blocked = false then some s else none
  | .arm device => (s.machine.record (device >>> DEVICE_INFO_SHIFT)).map fun d => { s with
      machine := s.machine.set_record (device >>> DEVICE_INFO_SHIFT) (d.block true) }
  | .irq c k =>
    match ata_irq.run s.machine with
    | (.ok (), m) => if (c, k) ∈ s.pending then some { s with
        machine := m
        pending := s.pending.erase (c, k)
        cleared := Function.update s.cleared (s.machine.current_controller.toNat >>> 1)
          (some (c, k)) } else none
    | (.error _, _) => none
  | .quiet => some s

theorem next_step (h : s.next e = some s') : Step s e s' := by
  cases e with
  | register base_port alt_port p =>
    cases h
    exact .register ..
  | switch device =>
    obtain ⟨hlt, h⟩ := Option.ite_none_right_eq_some.mp h
    cases h
    exact .switch hlt
  | issue c =>
    obtain ⟨d, hd, rfl⟩ := Option.map_eq_some_iff.mp h
    exact .issue hd
  | leave device completed =>
    obtain ⟨d, hd, h⟩ := Option.bind_eq_some_iff.mp h
    obtain ⟨hb, h⟩ := Option.ite_none_right_eq_some.mp h
    cases h
    exact .leave hd hb
  | arm device =>
    obtain ⟨d, hd, rfl⟩ := Option.map_eq_some_iff.mp h
    exact .arm hd
  | irq c k =>
    rw [System.next] at h
    split at h
    · obtain ⟨hp, h⟩ := Option.ite_none_right_eq_some.mp h
      cases h
      exact .irq hp ‹_›
    · cases h
  | quiet =>
    cases h
    exact .quiet (.of_controllers rfl rfl)

/-- The `is_blocked` of a record. -/
def System.blocked (s : System) (i : Nat) : Option Bool := (s.machine.record i).map (·.is_blocked)

/-! ## Orderly runs -/

/-- A record that registration adds is blocked. -/
theorem register_record {base_port alt_port : BitVec 32} {p : Probe}
    (hd : (ide_init m base_port alt_port p).2.record i = some d) : m.record i = some d ∨
    d.is_blocked = true := by
  rcases ide_init_cases m base_port alt_port p with hr | ⟨d₀, hb, hr⟩
  · rw [hr] at hd
    exact .inl hd
  · rw [hr] at hd
    have hget : (m.controllers.getD [] ++ [d₀])[i]? = some d := hd
    by_cases hlt : i < (m.controllers.getD []).length
    · rw [List.getElem?_append_left hlt] at hget
      left
      unfold Machine.record
      cases hc : m.controllers with
      | none =>
        rw [hc] at hget
        cases hget
      | some l =>
        rw [hc] at hget
        exact hget
    · rw [List.getElem?_append_right (Nat.not_lt.mp hlt)] at hget
      have hmem := List.mem_of_getElem? hget
      rw [List.mem_singleton.mp hmem]
      exact .inr hb

theorem SameFlags.blocked (h : SameFlags m m') (hd : m'.record i = some d) :
    ∃ d', m.record i = some d' ∧ d'.is_blocked = d.is_blocked := by
  have hflags := h.2 i
  rw [hd, Option.map_some, eq_comm, Option.map_eq_some_iff] at hflags
  obtain ⟨d', hd', heq⟩ := hflags
  exact ⟨d', hd', congrArg (·.1) heq⟩

theorem ClearedByLast.step (hI : ClearedByLast s) (h : Within Step Orderly s e s') :
    ClearedByLast s' := by
  obtain ⟨horder, hstep⟩ := h
  intro i d hd hb
  cases hstep with
  | register base_port alt_port p =>
    rcases register_record hd with hold | hblocked
    · exact hI i d hold hb
    · rw [hb] at hblocked
      cases hblocked
  | switch hlt => exact hI i d hd hb
  | @issue c d₀ hc =>
    have hne : i ≠ c := by
      rintro rfl
      rw [horder d hd] at hb
      cases hb
    have hlast := hI i d hd hb
    simpa only [Function.update_of_ne hne] using hlast
  | leave _ _ => exact hI i d hd hb
  | @arm device d₀ hd₀ =>
    have hrecord := (record_set_record (j := i) hd₀).symm.trans hd
    by_cases hi : device >>> DEVICE_INFO_SHIFT = i
    · rw [if_pos hi] at hrecord
      cases hrecord
      cases hb
    · rw [if_neg hi] at hrecord
      exact hI i d hrecord hb
  | @irq c k m hp hrun =>
    obtain ⟨hcurrent, hk⟩ := horder
    obtain ⟨d₀, status, error, hd₀, hrecord, -⟩ := ata_irq_run hrun
    rw [hcurrent] at hd₀ hrecord
    simp only [hcurrent]
    by_cases hi : i = c
    · subst hi
      rw [Function.update_self, hk]
    · have hold : s.machine.record i = some d := by
        rw [← hd]
        exact (congrFun hrecord i).symm ▸ (Function.update_of_ne hi _ _).symm
      rw [Function.update_of_ne hi]
      exact hI i d hold hb
  | quiet hs =>
    obtain ⟨d', hd', hb'⟩ := hs.blocked hd
    exact hI i d' hd' (hb'.trans hb)

theorem ClearedByLast.attributed (hI : ClearedByLast s) (h : Within Step Orderly s e s') :
    Attributed s e s' := by
  obtain ⟨horder, hstep⟩ := h
  cases hstep with
  | irq hp hrun =>
    obtain ⟨d, status, error, hd, hrecord, -⟩ := ata_irq_run hrun
    rw [horder.1] at hd hrecord
    exact ⟨d, status, error, hd, hrecord⟩
  | @leave device completed d hd hb =>
    cases completed with
    | false => trivial
    | true => exact hI _ d hd (hb rfl)
  | _ => trivial

/-- Nothing has been registered or issued. -/
structure Started (s : System) : Prop where
  index : s.machine.controller_index = 0
  controllers : s.machine.controllers = none
  issued : ∀ c, s.issued c = 0
  pending : s.pending = []

/-- A drive that answers one status. -/
def drive_probe : Probe := ⟨.INVALID, .ATA, false, ⟨0, 0, .INVALID, false, 0, false, false, false, 0⟩⟩

def unregistered : System :=
  ⟨⟨0, none, 0, [0x50], [], fun _ => 0, []⟩, fun _ => 0, [], fun _ => none⟩

/-- **Interrupts.** In a run whose interrupts all arrive while their controller is switched to and
belong to its last command, and whose commands are issued while `is_blocked` is set, each interrupt
changes the record of its own controller and no other, and no wait is completed by the interrupt of
an earlier command. -/
theorem attributed_of_orderly (h₀ : Started s₀) (h : Run (Within Step Orderly) s₀ es s)
    (hs : Within Step Orderly s e s') : Attributed s e s' := by
  have hstart : ClearedByLast s₀ := by
    intro i d hd
    rw [Machine.record, h₀.controllers] at hd
    cases hd
  exact (h.inv (fun _ _ _ hI hstep => hI.step hstep) hstart).attributed hs

instance (s : System) : (e : Event) → Decidable (Orderly s e)
  | .irq c k => inferInstanceAs (Decidable (s.machine.current_controller.toNat >>> 1 = c ∧ k = s.issued c))
  | .issue c => inferInstanceAs (Decidable (∀ d ∈ s.machine.record c, d.is_blocked = true))
  | .register _ _ _ => isTrue trivial
  | .switch _ => isTrue trivial
  | .leave _ _ => isTrue trivial
  | .arm _ => isTrue trivial
  | .quiet => isTrue trivial

/-- The step with a label, where there is one that is orderly. -/
def System.orderly_next (s : System) (e : Event) : Option System := if Orderly s e then s.next e else none

theorem orderly_next_step (h : s.orderly_next e = some s') : Within Step Orderly s e s' := by
  obtain ⟨horder, h⟩ := Option.ite_none_right_eq_some.mp h
  exact ⟨horder, next_step h⟩

/-- Two drives, each of which answers one status. -/
def two_unregistered : System :=
  { unregistered with machine := { unregistered.machine with responses := [0x50, 0x50] } }

/-- A command on each of two channels; both waits are completed, each by the interrupt of its own command. -/
theorem attributed_of_two_channels : ∃ s s' s'' d status error,
    Run (Within Step Orderly) two_unregistered [.register 0x1F0 0x3F6 drive_probe,
      .register 0x170 0x376 drive_probe, .switch 0, .issue 0, .irq 0 1, .leave 0 true, .arm 0, .switch 2,
      .issue 1] s ∧
    Within Step Orderly s (.irq 1 1) s' ∧ Within Step Orderly s' (.leave 2 true) s'' ∧
    s.machine.record 1 = some d ∧
    s'.machine.record = Function.update s.machine.record 1 (some (d.report status error)) ∧
    s'.cleared 1 = some (1, s'.issued 1) := by
  have hstart : Started two_unregistered := ⟨rfl, rfl, fun _ => rfl, rfl⟩
  have hruns : ([.register 0x1F0 0x3F6 drive_probe, .register 0x170 0x376 drive_probe, .switch 0, .issue 0,
      .irq 0 1, .leave 0 true, .arm 0, .switch 2, .issue 1].foldlM System.orderly_next two_unregistered).bind
        (fun s => (s.orderly_next (.irq 1 1)).bind fun s' => (s'.orderly_next (.leave 2 true)).map fun _ => ()) =
      some () := rfl
  obtain ⟨s, hs, hnext⟩ := Option.bind_eq_some_iff.mp hruns
  obtain ⟨s', hs', hnext'⟩ := Option.bind_eq_some_iff.mp hnext
  obtain ⟨s'', hs'', -⟩ := Option.map_eq_some_iff.mp hnext'
  have hrun : Run (Within Step Orderly) two_unregistered _ s := .of_foldlM (fun _ _ _ => orderly_next_step) hs
  have hirq := orderly_next_step hs'
  have hleave := orderly_next_step hs''
  obtain ⟨d, status, error, hd, hrecord⟩ := attributed_of_orderly hstart hrun hirq
  exact ⟨s, s', s'', d, status, error, hrun, hirq, hleave, hd, hrecord,
    attributed_of_orderly hstart (hrun.snoc hirq) hleave⟩

/-- A second controller is switched to before the interrupt of the first one's command arrives, and
the interrupt clears `is_blocked` of the second. A command is waited for until the timeout, and the
wait for the next one is completed by its interrupt. -/
theorem credited_to_others :
    (∃ s s', Run Step unregistered [.register 0x1F0 0x3F6 drive_probe, .register 0x170 0x376 drive_probe,
        .switch 0, .issue 0, .leave 0 false, .arm 0, .switch 2] s ∧
      Step s (.irq 0 1) s' ∧ ¬ Attributed s (.irq 0 1) s') ∧
    ∃ s s', Run Step unregistered [.register 0x1F0 0x3F6 drive_probe, .switch 0, .issue 0, .leave 0 false,
        .arm 0, .issue 0, .irq 0 1] s ∧
      Step s (.leave 0 true) s' ∧ ¬ Attributed s (.leave 0 true) s' := by
  constructor
  · have hblocked : ([.register 0x1F0 0x3F6 drive_probe, .register 0x170 0x376 drive_probe, .switch 0, .issue 0,
        .leave 0 false, .arm 0, .switch 2].foldlM System.next unregistered).bind (fun s =>
          (s.next (.irq 0 1)).map fun s' => (s.blocked 1, s'.blocked 1)) =
        some (some true, some false) := rfl
    obtain ⟨s, hs, hnext⟩ := Option.bind_eq_some_iff.mp hblocked
    obtain ⟨s', hs', heq⟩ := Option.map_eq_some_iff.mp hnext
    refine ⟨s, s', .of_foldlM (fun _ _ _ => next_step) hs, next_step hs', ?_⟩
    rintro ⟨d, status, error, -, hrecord⟩
    have hother : s'.blocked 1 = s.blocked 1 := by
      rw [System.blocked, hrecord, Function.update_of_ne (by decide), System.blocked]
    rw [(Prod.mk.inj heq).1, (Prod.mk.inj heq).2] at hother
    cases hother
  · have hcleared : ([.register 0x1F0 0x3F6 drive_probe, .switch 0, .issue 0, .leave 0 false, .arm 0, .issue 0,
        .irq 0 1].foldlM System.next unregistered).bind (fun s =>
          (s.next (.leave 0 true)).map fun _ => (s.cleared 0, s.issued 0)) = some (some (0, 1), 2) := rfl
    obtain ⟨s, hs, hnext⟩ := Option.bind_eq_some_iff.mp hcleared
    obtain ⟨s', hs', heq⟩ := Option.map_eq_some_iff.mp hnext
    refine ⟨s, s', .of_foldlM (fun _ _ _ => next_step) hs, next_step hs', fun hlast => ?_⟩
    have hcommand : s.cleared 0 = some (0, s.issued 0) := hlast
    rw [(Prod.mk.inj heq).1, (Prod.mk.inj heq).2] at hcommand
    cases hcommand

end Condor.Ata
