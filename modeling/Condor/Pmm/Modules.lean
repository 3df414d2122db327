import Condor.Pmm.BootMap
import Condor.Pmm.Reserved

/-!
# The boot modules

After `pmm_init`, `kinit` reserves the kernel, the Multiboot info and, for each
boot module, its record, its contents and the first byte of its command line.
It passes `mod_start - mod_end` as the length of the contents, which is the
length negated, and `pmm_set_region` leaves the frame stack alone. So the
contents are spared only where the map never freed them, or where another
region, or the negated one, happens to touch them (`BootInfo.Spared`).
-/

namespace Condor.Pmm

open Lib

def KERNEL_BASE : BitVec 32 := 0xC0000000#32

/-- `multiboot_module_t`, without its padding. -/
structure MultibootModule where
  mod_start : BitVec 32
  mod_end : BitVec 32
  cmdline : BitVec 32
  deriving DecidableEq, Repr

/-- `sizeof(multiboot_module_t)` and `sizeof(multiboot_info_t)`. -/
def SIZEOF_MODULE : Nat := 16
def SIZEOF_INFO : Nat := 120

/-- The bounds of the kernel, the address of the Multiboot info, and what it points to. -/
structure BootInfo where
  kernel_start : BitVec 32
  kernel_end : BitVec 32
  info_struct : BitVec 32
  mods_addr : BitVec 32
  mmap : List MmapEntry
  mods : List MultibootModule

section
variable {σ : Type} (P : Paging σ)

/-- The pointer `module` in iteration `i`. -/
def BootInfo.module (b : BootInfo) (i : Nat) : Nat :=
  ((b.mods_addr ||| KERNEL_BASE) + .ofNat 32 (SIZEOF_MODULE * i)).toNat

/-- The reservations of one module. -/
def reserve_module (b : BootInfo) (s : State σ) (m : MultibootModule × Nat) :
    Except Stop (State σ) := do
  let paddr ← P.vmm_get_physical_addr s.space (b.module m.2)
  let s := pmm_set_region s paddr SIZEOF_MODULE
  let s := pmm_set_region s m.1.mod_start.toNat (m.1.mod_start - m.1.mod_end).toNat
  .ok (pmm_set_region s m.1.cmdline.toNat 1)

/-- What `kinit` reserves between `pmm_init` and printing the map. -/
def reserve_boot (s : State σ) (b : BootInfo) : Except Stop (State σ) :=
  let s := pmm_set_region s (b.kernel_start - KERNEL_BASE).toNat (b.kernel_end - KERNEL_BASE).toNat
  let s := pmm_set_region s (b.info_struct &&& ~~~KERNEL_BASE).toNat SIZEOF_INFO
  b.mods.zipIdx.foldlM (reserve_module P b) s

end

/-! ## What the reservations touch -/

/-- The physical address of a linear one. -/
def physOf (m : AddrSpace) (laddr : Nat) : Nat :=
  match m.frame? (laddr / 4096) with
  | some f => f * 4096 + laddr % 4096
  | none => 0

/-- The regions reserved for a module, as bases and sizes. -/
def BootInfo.moduleRegions (b : BootInfo) (space : AddrSpace) (m : MultibootModule × Nat) :
    List (Nat × Nat) :=
  [(physOf space (b.module m.2), SIZEOF_MODULE),
    (m.1.mod_start.toNat, (m.1.mod_start - m.1.mod_end).toNat), (m.1.cmdline.toNat, 1)]

/-- The regions that `kinit` reserves. -/
def BootInfo.regions (b : BootInfo) (space : AddrSpace) : List (Nat × Nat) :=
  ((b.kernel_start - KERNEL_BASE).toNat, (b.kernel_end - KERNEL_BASE).toNat) ::
    ((b.info_struct &&& ~~~KERNEL_BASE).toNat, SIZEOF_INFO) ::
    b.mods.zipIdx.flatMap (b.moduleRegions space)

/-- Frame `f` overlaps the contents of a module. -/
def BootInfo.ModuleFrame (b : BootInfo) (f : Nat) : Prop :=
  ∃ m ∈ b.mods, m.mod_start.toNat < m.mod_end.toNat ∧
    m.mod_start.toNat / 4096 ≤ f ∧ f * 4096 < m.mod_end.toNat

/-- The allocator may hand out frame `f`, or use it to store the frame stack. -/
def Available (s : State AddrSpace) (h : History) (f : Nat) : Prop :=
  FreeBlock s.low_bitmaps f ∨ f ∈ h.frames

/-- No usable entry gives a module's frame to the frame stack, and each one that the map leaves free in
low memory is touched by a region that `kinit` reserves. -/
def BootInfo.Spared (b : BootInfo) (space : AddrSpace) : Prop :=
  ∀ f, b.ModuleFrame f →
    (4096 ≤ f → f < 0xFFFFF → ∀ e ∈ b.mmap, e.usable = true → ¬ e.Touches f) ∧
    (3 ≤ f → f < 4096 → FreedBy b.mmap f → ∃ r ∈ b.regions space, Touches r.1 r.2 f)

variable {s s' : State AddrSpace} {h : History} {b : BootInfo} {f : Nat}

theorem getPhys_eq (m : AddrSpace) (laddr : Nat) :
    AddrSpace.paging.vmm_get_physical_addr m laddr = .ok (physOf m laddr) := by
  unfold physOf
  cases hm : m.frame? (laddr / 4096) with
  | none => exact AddrSpace.getPhys_of_none hm
  | some p => exact AddrSpace.getPhys_of_frame hm

/-- Reserving regions one after the other. -/
def set_regions (s : State AddrSpace) (rs : List (Nat × Nat)) : State AddrSpace :=
  rs.foldl (fun s r => pmm_set_region s r.1 r.2) s

theorem pmm_set_region_space (s : State AddrSpace) (base size : Nat) :
    (pmm_set_region s base size).space = s.space := by
  unfold pmm_set_region
  split <;> rfl

theorem set_regions_space {rs : List (Nat × Nat)} : (set_regions s rs).space = s.space := by
  induction rs generalizing s with
  | nil => rfl
  | cons r rs ih => exact (ih (s := pmm_set_region s r.1 r.2)).trans (pmm_set_region_space s r.1 r.2)

theorem reserve_module_eq (m : MultibootModule × Nat) :
    reserve_module AddrSpace.paging b s m = .ok (set_regions s (b.moduleRegions s.space m)) := by
  unfold reserve_module
  rw [getPhys_eq]
  rfl

theorem reserve_modules_eq {ms : List (MultibootModule × Nat)} :
    ms.foldlM (reserve_module AddrSpace.paging b) s =
      .ok (set_regions s (ms.flatMap (b.moduleRegions s.space))) := by
  induction ms generalizing s with
  | nil => rfl
  | cons m ms ih =>
    have hstep := ih (s := set_regions s (b.moduleRegions s.space m))
    rw [set_regions_space] at hstep
    rw [List.foldlM_cons, reserve_module_eq, List.flatMap_cons]
    refine hstep.trans ?_
    rw [set_regions, set_regions, set_regions, List.foldl_append]

/-- The reservations return, and are those of `regions`. -/
theorem reserve_boot_eq : reserve_boot AddrSpace.paging s b = .ok (set_regions s (b.regions s.space)) := by
  unfold reserve_boot
  rw [reserve_modules_eq, pmm_set_region_space, pmm_set_region_space]
  rfl

theorem freeBlock_set_regions {rs : List (Nat × Nat)} :
    FreeBlock (set_regions s rs).low_bitmaps f ↔
      FreeBlock s.low_bitmaps f ∧ ∀ r ∈ rs, ¬ Touches r.1 r.2 f := by
  induction rs generalizing s with
  | nil => simp [set_regions]
  | cons r rs ih =>
    rw [List.forall_mem_cons, ← and_assoc, ← freeBlock_set_region]
    exact ih (s := pmm_set_region s r.1 r.2)

/-! ## What the memory map makes available -/

theorem History.mem_frames_clear_region {base size : Nat} : f ∈ (h.clear_region base size).frames ↔
    f ∈ h.frames ∨ 4096 ≤ f ∧ f < 0xFFFFF ∧ Touches base size f := by
  unfold History.clear_region
  by_cases h0 : size = 0
  · simp [h0, Touches]
  rw [if_neg h0, loopWhile_lt, shift12]
  by_cases hle : base / 4096 ≤ min (region_end base size) 0xFFFFF
  · rw [History.mem_frames_clear hle]
    unfold Touches
    exact or_congr_right (by omega)
  · rw [loop_of_le (by omega)]
    refine (or_iff_left fun hf => ?_).symm
    have := hf.2.2.2
    omega

/-- The frames that the memory map gives to the frame stack. -/
theorem History.mem_frames_mmap {mmap : List MmapEntry} :
    f ∈ (mmap.foldl History.add_mmap_entry h).frames ↔
      f ∈ h.frames ∨ 4096 ≤ f ∧ f < 0xFFFFF ∧ ∃ e ∈ mmap, e.usable = true ∧ e.Touches f := by
  induction mmap generalizing h with
  | nil => simp
  | cons e mmap ih =>
    have hone : f ∈ (h.add_mmap_entry e).frames ↔
        f ∈ h.frames ∨ 4096 ≤ f ∧ f < 0xFFFFF ∧ e.usable = true ∧ e.Touches f := by
      unfold History.add_mmap_entry MmapEntry.Touches
      by_cases hu : e.usable = true
      · rw [if_pos hu, History.mem_frames_clear_region]
        simp [hu]
      · simp [hu]
    rw [List.foldl_cons, ih, hone, or_assoc, ← and_or_left, ← and_or_left]
    simp only [List.mem_cons, exists_eq_or_imp]

theorem freeBlock_pmm_init_low {mmap : List MmapEntry} (he : pmm_init AddrSpace.paging s mmap = .ok s')
    (hf : f < 3) : ¬ FreeBlock s'.low_bitmaps f := fun hfree => hfree.2 (reserved_pmm_init he f hf)

/-- The blocks left free are those the map frees and no region touches. -/
theorem freeBlock_reserve_boot {s0 s1 : State AddrSpace}
    (hinit : pmm_init AddrSpace.paging s b.mmap = .ok s1)
    (hres : reserve_boot AddrSpace.paging s1 b = .ok s0) :
    FreeBlock s0.low_bitmaps f ↔
      3 ≤ f ∧ f < 4096 ∧ FreedBy b.mmap f ∧ ∀ r ∈ b.regions s1.space, ¬ Touches r.1 r.2 f := by
  rw [reserve_boot_eq] at hres
  cases hres
  rw [freeBlock_set_regions]
  by_cases h3 : 3 ≤ f
  · by_cases hlt : f < 4096
    · rw [freeBlock_pmm_init hinit h3 hlt]
      simp only [h3, hlt, true_and]
    · exact ⟨fun hf => absurd hf.1.1 hlt, fun hf => absurd hf.2.1 hlt⟩
  · exact ⟨fun hf => absurd hf.1 (freeBlock_pmm_init_low hinit (by omega)), fun hf => absurd hf.1 h3⟩

/-- What is available after the reservations. -/
theorem available_iff {s0 s1 : State AddrSpace} (hinit : pmm_init AddrSpace.paging s b.mmap = .ok s1)
    (hres : reserve_boot AddrSpace.paging s1 b = .ok s0) :
    Available s0 (b.mmap.foldl History.add_mmap_entry .empty) f ↔
      (3 ≤ f ∧ f < 4096 ∧ FreedBy b.mmap f ∧ ∀ r ∈ b.regions s1.space, ¬ Touches r.1 r.2 f) ∨
      (4096 ≤ f ∧ f < 0xFFFFF ∧ ∃ e ∈ b.mmap, e.usable = true ∧ e.Touches f) := by
  have hempty : f ∉ History.empty.frames := List.not_mem_nil
  unfold Available
  rw [freeBlock_reserve_boot hinit hres, History.mem_frames_mmap, or_iff_right hempty]

/-- The reservations leave no frame of a module available exactly if the modules are `Spared`. -/
theorem spared_iff {s0 s1 : State AddrSpace} (hinit : pmm_init AddrSpace.paging s b.mmap = .ok s1)
    (hres : reserve_boot AddrSpace.paging s1 b = .ok s0) :
    (∀ f, b.ModuleFrame f → ¬ Available s0 (b.mmap.foldl History.add_mmap_entry .empty) f) ↔
      b.Spared s1.space := by
  refine forall₂_congr fun f _ => ?_
  rw [available_iff hinit hres, not_or]
  refine and_comm.trans (and_congr ?_ ?_)
  · simp only [not_and, not_exists]
  · simp only [not_and, not_forall, not_not, exists_prop]

/-! ## The calls after the reservations -/

/-- Runs from `s0` whose calls are all `OpOk`, with the frames that some call has released. -/
inductive LaterRun (s0 : State AddrSpace) (h0 : History) :
    State AddrSpace → History → (Nat → Prop) → Prop
  | start : LaterRun s0 h0 s0 h0 fun _ => False
  | step {s s' h released op r} (hrun : LaterRun s0 h0 s h released) (hc : OpOk s h op)
      (hok : exec AddrSpace.paging s op = .ok (r, s')) :
      LaterRun s0 h0 s' (h.exec s.low_bitmaps op r) fun f => released f ∨ op.Released f

theorem LaterRun.reachable {s0 : State AddrSpace} {h0 : History} {released : Nat → Prop}
    (h0r : Reachable AddrSpace.paging s0) (hrun : LaterRun s0 h0 s h released) :
    Reachable AddrSpace.paging s := by
  induction hrun with
  | start => exact h0r
  | step _ _ hok ih => exact .step ih hok

/-- What was not free at the start stays so until it is released. -/
theorem LaterRun.not_free {s0 : State AddrSpace} {h0 : History} {released : Nat → Prop}
    (h0r : Reachable AddrSpace.paging s0) (hs0 : Sound s0 h0) (hf0 : ¬ Free s0 h0 f)
    (hrun : LaterRun s0 h0 s h released) : Sound s h ∧ (¬ released f → ¬ Free s h f) := by
  induction hrun with
  | start => exact ⟨hs0, fun _ => hf0⟩
  | step hrun hc hok ih =>
    obtain ⟨hs, hkept⟩ := ih
    have heff := hs.effect_exec (summaryOk_reachable (hrun.reachable h0r)) hc hok
    refine ⟨heff.sound, fun hnot hfree => ?_⟩
    rcases heff.free f hfree with hfree | hrel
    · exact hkept (fun hr => hnot (.inl hr)) hfree
    · exact hnot (.inr hrel)

theorem Sound.set_regions {rs : List (Nat × Nat)} (hs : Sound s h) : Sound (Pmm.set_regions s rs) h := by
  induction rs generalizing s with
  | nil => exact hs
  | cons r rs ih => exact ih hs.effect_set_region.sound

theorem Reachable.set_regions {rs : List (Nat × Nat)} (hs : Reachable AddrSpace.paging s) :
    Reachable AddrSpace.paging (Pmm.set_regions s rs) := by
  induction rs generalizing s with
  | nil => exact hs
  | cons r rs ih =>
    have hstep : exec AddrSpace.paging s (.set_region r.1 r.2) =
      .ok (none, pmm_set_region s r.1 r.2) := rfl
    exact ih (.step hs hstep)

/-- **The boot modules.** The reservations leave no frame of a module available exactly if the modules
are `Spared`; then no later allocation hands one out before it is released. -/
theorem boot_modules {s0 s1 : State AddrSpace} (h32 : s.space.frame? (STACK32 / 4096) = none)
    (h64 : s.space.frame? (STACK64 / 4096) = none) (hi : s.stack32_index = 0)
    (hm : MmapOk .empty b.mmap) (hinit : pmm_init AddrSpace.paging s b.mmap = .ok s1)
    (hres : reserve_boot AddrSpace.paging s1 b = .ok s0) :
    let h0 := b.mmap.foldl History.add_mmap_entry .empty
    ((∀ f, b.ModuleFrame f → ¬ Available s0 h0 f) ↔ b.Spared s1.space) ∧
    (b.Spared s1.space → ∀ s h released, LaterRun s0 h0 s h released →
      ∀ flags r s', OpOk s h (.kpmalloc flags) → kpmalloc AddrSpace.paging s flags = .ok (r, s') →
        r ≠ FAIL → ∀ f, r / 4096 ≤ f → f < r / 4096 + flags.count → b.ModuleFrame f → released f) := by
  intro h0
  have hspared := spared_iff (b := b) hinit hres
  refine ⟨hspared, fun hsp s h released hrun flags r s' hok he hr f h1 h2 hf => ?_⟩
  have hres' := hres
  rw [reserve_boot_eq] at hres'
  cases hres'
  have hs0 : Sound (set_regions s1 (b.regions s1.space)) h0 :=
    (Sound.pmm_init h32 h64 hi hm hinit).set_regions
  have hreach : Reachable AddrSpace.paging (set_regions s1 (b.regions s1.space)) :=
    (Reachable.init hinit).set_regions
  have hf0 : ¬ Free (set_regions s1 (b.regions s1.space)) h0 f := fun hfree =>
    hspared.mpr hsp f hf (hfree.imp_right fun hmem => List.mem_append_left _ hmem)
  obtain ⟨hs, hkept⟩ := hrun.not_free hreach hs0 hf0
  by_contra hnot
  obtain ⟨r', s'', he', hh⟩ :=
    (hs.kpmalloc_handed_iff (summaryOk_reachable (hrun.reachable hreach)) flags).mpr hok
  rw [he] at he'
  cases he'
  exact hkept hnot ((hh.resolve_left hr).1 f h1 h2).1

/-- A machine with two usable pages and a module in the first, which the reservation of the kernel
covers. -/
def coveredBoot : BootInfo where
  kernel_start := 0xC0010000#32
  kernel_end := 0xC0012000#32
  info_struct := 0xC0009000#32
  mods_addr := 0x00009080#32
  mmap := [⟨0x10000#64, 0x2000#64, MULTIBOOT_MEMORY_AVAILABLE⟩]
  mods := [⟨0x10000#32, 0x11000#32, 0x9100#32⟩]

theorem boot_modules_covered : ∃ s1 s0,
    pmm_init AddrSpace.paging ⟨fun _ => 0, 0, false, ⟨fun _ => 0, fun _ _ => 0⟩⟩ coveredBoot.mmap = .ok s1 ∧
    reserve_boot AddrSpace.paging s1 coveredBoot = .ok s0 ∧
    ∀ f, coveredBoot.ModuleFrame f →
      ¬ Available s0 (coveredBoot.mmap.foldl History.add_mmap_entry .empty) f := by
  have hinit : pmm_init AddrSpace.paging ⟨fun _ => 0, 0, false, ⟨fun _ => 0, fun _ _ => 0⟩⟩
    coveredBoot.mmap = .ok _ := rfl
  have hm : MmapOk .empty coveredBoot.mmap :=
    ⟨fun _ f h1 _ ht => by have : f < 18 := ht.2.2; omega, trivial⟩
  refine ⟨_, _, hinit, reserve_boot_eq, (boot_modules rfl rfl rfl hm hinit reserve_boot_eq).1.mpr ?_⟩
  rintro f ⟨m, hmem, -, hlo, hhi⟩
  rw [List.mem_singleton.mp hmem] at hlo hhi
  have hlo' : 0x10000 / 4096 ≤ f := hlo
  have hhi' : f * 4096 < 0x11000 := hhi
  obtain rfl : f = 16 := by omega
  refine ⟨fun h => absurd h (by decide), fun _ _ _ => ⟨(0x10000, 0x12000), ?_, by decide⟩⟩
  exact List.mem_cons_self

/-- A machine whose only usable page is a module. -/
def moduleBoot : BootInfo where
  kernel_start := 0xC0100000#32
  kernel_end := 0xC0110000#32
  info_struct := 0xC0009000#32
  mods_addr := 0x00009080#32
  mmap := [⟨0x10000#64, 0x1000#64, MULTIBOOT_MEMORY_AVAILABLE⟩]
  mods := [⟨0x10000#32, 0x11000#32, 0x9100#32⟩]

/-- The negated length reserves nothing, and the next allocation hands out the module's page. -/
theorem boot_module_handed_out : ∃ s1 s0 s',
    pmm_init AddrSpace.paging ⟨fun _ => 0, 0, false, ⟨fun _ => 0, fun _ _ => 0⟩⟩ moduleBoot.mmap = .ok s1 ∧
    reserve_boot AddrSpace.paging s1 moduleBoot = .ok s0 ∧
    pmalloc AddrSpace.paging s0 = .ok (0x10000, s') ∧ moduleBoot.ModuleFrame (0x10000 / 4096) := by
  obtain ⟨s1, hinit, hnone⟩ : ∃ s1, pmm_init AddrSpace.paging ⟨fun _ => 0, 0, false,
      ⟨fun _ => 0, fun _ _ => 0⟩⟩ moduleBoot.mmap = .ok s1 ∧ s1.space.frame? 0xC0009 = none :=
    ⟨_, rfl, rfl⟩
  have hregions : moduleBoot.regions s1.space =
      [(0x100000, 0x110000), (0x9000, 120), (0, 16), (0x10000, 0xFFFFF000), (0x9100, 1)] := by
    have hphys : physOf s1.space (moduleBoot.module 0) = 0 := by
      unfold physOf
      rw [show moduleBoot.module 0 / 4096 = 0xC0009 from by decide, hnone]
    have hmods : moduleBoot.mods.zipIdx = [(⟨0x10000#32, 0x11000#32, 0x9100#32⟩, 0)] := rfl
    unfold BootInfo.regions
    rw [hmods, List.flatMap_singleton, BootInfo.moduleRegions, hphys]
    rfl
  have htouch {f : Nat} : (⟨0x10000#64, 0x1000#64, MULTIBOOT_MEMORY_AVAILABLE⟩ : MmapEntry).Touches f ↔
      f = 16 := by
    have hiff : Touches 0x10000 0x1000 f ↔ f = 16 := by
      unfold Touches
      rw [show region_end 0x10000 0x1000 = 17 by decide]
      omega
    exact hiff
  have hfree {f : Nat} := freeBlock_reserve_boot (f := f) hinit reserve_boot_eq
  have hreach : Reachable AddrSpace.paging (set_regions s1 (moduleBoot.regions s1.space)) :=
    (Reachable.init hinit).set_regions
  have h16 : paddm_get_first_clear_bits (set_regions s1 (moduleBoot.regions s1.space)).low_bitmaps {} =
      some 16 := by
    refine (summaryOk_reachable hreach).search_default.mpr ⟨hfree.mpr ?_, fun c hc hf => ?_⟩
    · refine ⟨by omega, by omega, .inr ⟨rfl, htouch.mpr rfl, nofun⟩, ?_⟩
      rw [hregions]
      decide
    · obtain ⟨-, -, hby, -⟩ := hfree.mp hf
      exact hc.ne (htouch.mp (hby.resolve_left id).2.1)
  have he : ∃ s', pmalloc AddrSpace.paging (set_regions s1 (moduleBoot.regions s1.space)) =
      .ok (0x10000, s') := by
    rw [pmalloc, kpmalloc, h16]
    exact ⟨_, rfl⟩
  obtain ⟨s', he⟩ := he
  refine ⟨s1, _, s', hinit, reserve_boot_eq, he, _, List.mem_singleton_self _, ?_⟩
  decide

end Condor.Pmm
