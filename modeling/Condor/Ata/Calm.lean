import Condor.Ata.Transfer

/-!
# Invariants behind a read

Any read of a port may come after interrupts, and each interrupt is itself a few
reads and changes of a record's flags. `Calm I` collects what an invariant has to
survive for all of that, and the lemmas below say what each operation of
`ata.c` then does with it. `Inert I` is the case of an invariant that does not
depend on the flags at all.
-/

namespace Condor.Ata

open Lib Lib.Prog

/-- The invariant survives interrupts, reads that no check uses, and what `waitForIRQ` and `switchDevice`
change. -/
structure Calm (I : Machine → Prop) : Prop where
  irq : Keeps I ata_irq
  arrivals : ∀ m ns, I m → I (m.set_arrivals ns)
  read : ∀ m p v vs, m.responses = v :: vs → I m →
    I ((m.set_responses vs).append_log (.inb .other p (v.setWidth 8)))
  block : ∀ m i d, m.record i = some d → I m → I (m.set_record i (d.block true))
  current : ∀ m device, I m → I (m.set_current device)

variable {α β : Type} {I P Q : Machine → Prop} {E : Stop → Machine → Prop} {device : Nat}
  {a : BitVec 32} {why : Why}

/-! ## The primitive operations -/

theorem record_spec {i : Nat} (hE : ∀ m, P m → E .wild m) :
    Triple P (record i) (fun d m => m.record i = some d ∧ P m) E := by
  refine Triple.bind Triple.get fun m => ?_
  cases h : m.record i with
  | some d =>
    refine Triple.pure fun m' h' => ⟨?_, h'.2⟩
    rw [← h'.1, h]
  | none => exact Triple.stop fun _ h => hE _ h.2

theorem write_spec {i : Nat} {f : AtaDevice → AtaDevice}
    (h : ∀ m d, m.record i = some d → P m → Q (m.set_record i (f d))) (hE : ∀ m, P m → E .wild m) :
    Triple P (write i f) (fun _ => Q) E :=
  (record_spec hE).bind fun d => .modify fun m hm => h m d hm.1 hm.2

/-- A write to a record that is there. -/
theorem write_some {i : Nat} {f : AtaDevice → AtaDevice}
    (h : ∀ m d, m.record i = some d → P m → Q (m.set_record i (f d)))
    (hsome : ∀ m, P m → ∃ d, m.record i = some d) : Triple P (write i f) (fun _ => Q) E := by
  intro m hm
  obtain ⟨d, hd⟩ := hsome m hm
  have hrecord : (record i).run m = (.ok d, m) := by
    rw [record, bind_ok (get_run m), hd, pure_run]
  rw [write, bind_ok hrecord]
  exact h m d hd hm

theorem respond_nil {m : Machine} (h : m.responses = []) : respond.run m = (.error .pending, m) := by
  rw [respond, bind_ok (get_run m), h, stop_run]

theorem respond_cons {m : Machine} {v : BitVec 16} {vs : List (BitVec 16)} (h : m.responses = v :: vs) :
    respond.run m = (.ok v, m.set_responses vs) := by
  rw [respond, bind_ok (get_run m), h]
  rfl

theorem interrupts_quiet {m : Machine} (h : m.arrivals = []) : interrupts.run m = (.ok (), m) := by
  rw [interrupts, bind_ok (get_run m), h, pure_run]

theorem inb_run {m : Machine} {v : BitVec 16} {vs : List (BitVec 16)} (ha : m.arrivals = [])
    (hr : m.responses = v :: vs) : (inb why a).run m =
      (.ok (v.setWidth 8), (m.set_responses vs).append_log (.inb why (port a) (v.setWidth 8))) := by
  rw [inb, bind_ok (interrupts_quiet ha), read_port, bind_ok (respond_cons hr)]
  rfl

theorem inw_run {m : Machine} {v : BitVec 16} {vs : List (BitVec 16)} (ha : m.arrivals = [])
    (hr : m.responses = v :: vs) :
    (inw a).run m = (.ok v, (m.set_responses vs).append_log (.inw (port a) v)) := by
  rw [inw, bind_ok (interrupts_quiet ha), bind_ok (respond_cons hr)]
  rfl

theorem respond_spec {R : BitVec 16 → Machine → Prop}
    (h : ∀ m v vs, m.responses = v :: vs → P m → R v (m.set_responses vs))
    (hE : ∀ m, P m → E .pending m) : Triple P respond R E := by
  intro m hm
  cases hr : m.responses with
  | nil =>
    rw [respond_nil hr]
    exact hE m hm
  | cons v vs =>
    rw [respond_cons hr]
    exact h m v vs hr hm

theorem read_port_spec {R : BitVec 8 → Machine → Prop} (h : ∀ m v vs, m.responses = v :: vs → P m →
      R (v.setWidth 8) ((m.set_responses vs).append_log (.inb why (port a) (v.setWidth 8))))
    (hE : ∀ m, P m → E .pending m) : Triple P (read_port why a) R E := by
  have hrespond : Triple P respond
      (fun v m => R (v.setWidth 8) (m.append_log (.inb why (port a) (v.setWidth 8)))) E :=
    respond_spec h hE
  refine hrespond.bind fun v => ?_
  refine Triple.bind (Q := fun _ => R (v.setWidth 8)) (.modify fun _ hm => hm) fun _ => ?_
  exact .pure fun _ hm => hm

/-- The part of `inw` after the interrupts. -/
theorem read_word_spec {R : BitVec 16 → Machine → Prop} (h : ∀ m v vs, m.responses = v :: vs → P m →
      R v ((m.set_responses vs).append_log (.inw (port a) v)))
    (hE : ∀ m, P m → E .pending m) :
    Triple P (do let v ← respond; modify (·.append_log (.inw (port a) v)); pure v) R E := by
  have hrespond : Triple P respond (fun v m => R v (m.append_log (.inw (port a) v))) E :=
    respond_spec h hE
  refine hrespond.bind fun v => ?_
  refine Triple.bind (Q := fun _ => R v) (.modify fun _ hm => hm) fun _ => ?_
  exact .pure fun _ hm => hm

theorem Keeps.record (i : Nat) : Keeps I (record i) :=
  Triple.after (record_spec fun _ h => h) fun _ _ h => h.2

theorem Keeps.loop {body : α → M (α ⊕ β)} (h : ∀ a, Keeps I (body a)) (a : α) : Keeps I (loop body a) :=
  Keeps.get.bind fun _ => Keeps.iterate h _ a

/-! ## Invariants that do not look at the flags -/

/-- `controller_index` counts two ids for each record. -/
def Indexed (m : Machine) : Prop := m.controller_index = 2 * (m.controllers.getD []).length

theorem Indexed.lt {m : Machine} {d : AtaDevice} (h : Indexed m)
    (hd : m.record (device >>> DEVICE_INFO_SHIFT) = some d) : device < m.controller_index := by
  have hshift : device >>> DEVICE_INFO_SHIFT = device / 2 := Nat.shiftRight_eq_div_pow device 1
  unfold Indexed at h
  unfold Machine.record at hd
  cases hc : m.controllers with
  | none => rw [hc] at hd; cases hd
  | some l =>
    rw [hc, Option.bind_some, hshift] at hd
    rw [hc, Option.getD_some] at h
    have hlt := (List.getElem?_eq_some_iff.mp hd).1
    omega

theorem Indexed.record_eq_none {m : Machine} (h : Indexed m) (hd : m.controller_index ≤ device) :
    m.record (device >>> DEVICE_INFO_SHIFT) = none := by
  by_contra hc
  obtain ⟨d, hsome⟩ := Option.ne_none_iff_exists'.mp hc
  exact absurd (h.lt hsome) (Nat.not_lt.mpr hd)

/-- What no flag of a device changes. -/
structure Config where
  base_port : BitVec 32
  alt_port : BitVec 32
  interface_type : InterfaceType
  lba48_support : Bool
  max_command_length : BitVec 2
  deriving DecidableEq, Repr

def AtaDevice.config (d : AtaDevice) : Config :=
  ⟨d.base_port, d.alt_port, d.interface_type, d.lba48_support, d.max_command_length⟩

/-- The invariant survives a read for the handler or for no check, and a change of flags that are not
`in_use`. -/
structure Inert (I : Machine → Prop) : Prop where
  arrivals : ∀ m ns, I m → I (m.set_arrivals ns)
  read : ∀ m w p v vs, w = .other ∨ (∃ i, w = .irq i) → m.responses = v :: vs → I m →
    I ((m.set_responses vs).append_log (.inb w p (v.setWidth 8)))
  flags : ∀ m i d d', m.record i = some d → d'.config = d.config → d'.in_use = d.in_use → I m →
    I (m.set_record i d')
  current : ∀ m device, I m → I (m.set_current device)

namespace Inert

variable (hI : Inert I)
include hI

theorem read_port (hw : why = .other ∨ ∃ i, why = .irq i) : Keeps I (read_port why a) :=
  read_port_spec (fun m v vs hr hm => hI.read m why (port a) v vs hw hr hm) fun _ h => h

theorem write {i : Nat} {f : AtaDevice → AtaDevice}
    (hf : ∀ d, (f d).config = d.config ∧ (f d).in_use = d.in_use) : Keeps I (write i f) :=
  write_spec (fun m d hd hm => hI.flags m i d (f d) hd (hf d).1 (hf d).2 hm) fun _ h => h

theorem irq : Keeps I ata_irq := by
  refine Keeps.get.bind fun m => (Keeps.record _).bind fun d =>
    (hI.read_port (.inr ⟨_, rfl⟩)).bind fun status => Keeps.ite ?_ ?_
  · refine (hI.write ?_).bind fun _ => (Keeps.record _).bind fun d =>
      (hI.read_port (.inl rfl)).bind fun _ =>
      (hI.write ?_).bind fun _ => hI.write ?_
    all_goals exact fun _ => ⟨rfl, rfl⟩
  · refine (hI.write ?_).bind fun _ => (hI.write ?_).bind fun _ => hI.write ?_
    all_goals exact fun _ => ⟨rfl, rfl⟩

theorem calm : Calm I where
  irq := hI.irq
  arrivals := hI.arrivals
  read m p v vs := hI.read m .other p v vs (.inl rfl)
  block m i d hd := hI.flags m i d (d.block true) hd rfl rfl
  current := hI.current

end Inert

theorem Inert.and {J : Machine → Prop} (hI : Inert I) (hJ : Inert J) : Inert fun m => I m ∧ J m where
  arrivals m ns h := ⟨hI.arrivals m ns h.1, hJ.arrivals m ns h.2⟩
  read m w p v vs hw hr h := ⟨hI.read m w p v vs hw hr h.1, hJ.read m w p v vs hw hr h.2⟩
  flags m i d d' hd hc hu h := ⟨hI.flags m i d d' hd hc hu h.1, hJ.flags m i d d' hd hc hu h.2⟩
  current m device h := ⟨hI.current m device h.1, hJ.current m device h.2⟩

theorem record_set_record {m : Machine} {i j : Nat} {d d' : AtaDevice} (h : m.record i = some d) :
    (m.set_record i d').record j = if i = j then some d' else m.record j := by
  unfold Machine.record at h ⊢
  cases hc : m.controllers with
  | none => rw [hc] at h; cases h
  | some l =>
    rw [hc, Option.bind_some] at h
    have hlt : i < l.length := (List.getElem?_eq_some_iff.mp h).1
    simp [Machine.set_record, hc, List.getElem?_set, hlt]

/-- The device of index `i` has configuration `c`. -/
def HasConfig (i : Nat) (c : Config) (m : Machine) : Prop := ∃ d, m.record i = some d ∧ d.config = c

theorem HasConfig.eq {i : Nat} {c : Config} {m : Machine} {d : AtaDevice} (h : HasConfig i c m)
    (hd : m.record i = some d) : d.config = c := by
  obtain ⟨d', hd', hc⟩ := h
  rw [hd] at hd'
  cases hd'
  exact hc

theorem HasConfig.set_record {i j : Nat} {c : Config} {m : Machine} {d d' : AtaDevice}
    (h : HasConfig j c m) (hd : m.record i = some d) (hc : d'.config = d.config) :
    HasConfig j c (m.set_record i d') := by
  obtain ⟨d₀, hd₀, hc₀⟩ := h
  unfold HasConfig
  rw [record_set_record hd]
  by_cases hij : i = j
  · subst hij
    rw [hd] at hd₀
    cases hd₀
    exact ⟨d', if_pos rfl, hc.trans hc₀⟩
  · exact ⟨d₀, (if_neg hij).trans hd₀, hc₀⟩

theorem inert_hasConfig (i : Nat) (c : Config) : Inert (HasConfig i c) where
  arrivals _ _ h := h
  read _ _ _ _ _ _ _ h := h
  flags _ _ _ _ hd hc _ h := h.set_record hd hc
  current _ _ h := h

/-- Interrupts and reads only append reads to the log. -/
theorem Inert.of_log (C : List Access → Prop)
    (h : ∀ l w p v, w = .other ∨ (∃ i, w = .irq i) → C l → C (l ++ [.inb w p v])) :
    Inert fun m => C m.log where
  arrivals _ _ hm := hm
  read m w p v _ hw _ hm := h m.log w p (v.setWidth 8) hw hm
  flags _ _ _ _ _ _ _ hm := hm
  current _ _ hm := hm

/-! ## What an invariant survives -/

namespace Calm

variable (hI : Calm I)
include hI

theorem handle (n : Nat) : Keeps I (handle n) := by
  induction n with
  | zero => exact Keeps.pure _
  | succ n ih => exact hI.irq.bind fun _ => ih

theorem interrupts : Keeps I interrupts := by
  refine Triple.bind Triple.get fun m => ?_
  cases m.arrivals with
  | nil => exact Triple.pure fun _ h => h.2
  | cons n ns => exact Triple.bind (Triple.modify fun _ h => hI.arrivals _ _ h.2) fun _ => hI.handle n

theorem inb {R : BitVec 8 → Machine → Prop} (h : ∀ m v vs, m.responses = v :: vs → I m →
      R (v.setWidth 8) ((m.set_responses vs).append_log (.inb why (port a) (v.setWidth 8)))) :
    Triple I (inb why a) R fun _ => I :=
  Triple.bind hI.interrupts fun _ => read_port_spec h fun _ h => h

theorem inb_other : Keeps I (Ata.inb .other a) := hI.inb fun m v vs hr hm => hI.read m (port a) v vs hr hm

theorem inw {R : BitVec 16 → Machine → Prop} (h : ∀ m v vs, m.responses = v :: vs → I m →
      R v ((m.set_responses vs).append_log (.inw (port a) v))) : Triple I (inw a) R fun _ => I :=
  Triple.bind hI.interrupts fun _ => read_word_spec h fun _ h => h

theorem outb {v : BitVec 8} (h : ∀ m, I m → Q (m.append_log (.outb (port a) v))) :
    Triple I (outb a v) (fun _ => Q) fun _ => I :=
  Triple.bind hI.interrupts fun _ => Triple.modify h

theorem outw {v : BitVec 16} (h : ∀ m, I m → Q (m.append_log (.outw (port a) v))) :
    Triple I (outw a v) (fun _ => Q) fun _ => I :=
  Triple.bind hI.interrupts fun _ => Triple.modify h

theorem is_blocked : Keeps I (is_blocked device) :=
  hI.interrupts.bind fun _ => (Keeps.record _).bind fun _ => Keeps.pure _

theorem has_errored : Triple I (has_errored device)
    (fun b m => I m ∧ ∃ d, m.record (device >>> DEVICE_INFO_SHIFT) = some d ∧ d.has_errored = b)
    fun _ => I := by
  refine Triple.bind hI.interrupts fun _ => Triple.bind (record_spec fun _ h => h) fun d => ?_
  exact Triple.pure fun _ h => ⟨h.2, d, h.1, rfl⟩

theorem wait_loop (n : Nat) (alt_status : BitVec 8) : Keeps I (wait_loop device n alt_status) := by
  induction n generalizing alt_status with
  | zero => exact hI.is_blocked.bind fun _ => Keeps.pure _
  | succ n ih =>
    refine hI.is_blocked.bind fun b => Keeps.ite ?_ (Keeps.pure _)
    exact (Keeps.record _).bind fun _ => hI.inb_other.bind fun alt_status => ih alt_status

theorem waitForIRQ : Keeps I (waitForIRQ device) := by
  refine Keeps.get.bind fun m => Keeps.ite (Keeps.pure _) ?_
  exact (hI.wait_loop 256 0).bind fun _ => hI.interrupts.bind fun _ =>
    write_spec (hI.block · _) fun _ h => h

theorem switchDevice (hout : ∀ m p v, I m → I (m.append_log (.outb p v))) :
    Keeps I (switchDevice device) := by
  refine Keeps.get.bind fun m => Keeps.ite (Keeps.pure _) ?_
  refine (Keeps.record _).bind fun d => Triple.bind (hI.outb fun m h => hout m _ _ h) fun _ => ?_
  refine hI.inb_other.bind fun _ => hI.inb_other.bind fun _ => hI.inb_other.bind fun _ =>
    hI.inb_other.bind fun _ => ?_
  exact Keeps.bind (Keeps.modify fun m h => hI.current m device h) fun _ => Keeps.pure _

end Calm

end Condor.Ata
