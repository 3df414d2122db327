import Condor.Heap.Krealloc
import Condor.Lib.Leases

/-!
# The heap and its users

A run of the heap is any sequence of calls with what they answered, and of writes to
memory that is leased (`Serves`). Users are `Allowed` to free or reallocate what they
hold, and to ask for less than 4 GiB less 80 bytes; `kcalloc` and `krealloc` must not have
been refused. Then every step is one that an allocator promises, with the blocks of the
heap as the leases (`serves_served`), and so is the whole run (`UserRun.promised`).
-/

namespace Condor.Heap.Liballoc

open Lib Lib.Prog

/-- What the owner of a block has. -/
def Block.lease (b : Block) : Lease 32 := ⟨b.payload, b.req.toNat⟩

def leases (L : List Region) : Set (Lease 32) := {ℓ | ∃ b ∈ blocks L, b.lease = ℓ}

section
variable {L L' : List Region} {b c : Block} {x : Word}

theorem Ok.payload_inj (hL : Ok L) (hb : b ∈ blocks L) (hc : c ∈ blocks L) (h : b.payload = c.payload) : b = c := by
  have hinside : ∀ d ∈ blocks L, d.addr.toNat ≤ d.payload.toNat ∧ d.payload.toNat < d.fin := by
    intro d hd
    obtain ⟨r, hr, hd⟩ := mem_blocks.mp hd
    have hin := (hL.regions r hr).block hd
    have h1 := hin.toNat_payload
    have h2 := hin.padded
    unfold Block.fin
    omega
  have hbx := hinside b hb
  have hcx := hinside c hc
  rw [h] at hbx
  rcases hL.separate hb hc with heq | hapart
  · exact heq
  · omega

theorem Ok.payload_ne (hL : Ok L) (hb : b ∈ blocks L) : b.payload ≠ NULL := by
  obtain ⟨r, hr, hb⟩ := mem_blocks.mp hb
  exact ((hL.regions r hr).block hb).payload_ne

/-- The lease of a block, beside those of the others. -/
theorem Ok.lease_fresh (hL : Ok L) (hb : b ∈ blocks L) :
    b.lease.Fresh 16 {ℓ | ∃ c ∈ blocks L, c ≠ b ∧ c.lease = ℓ} where
  ne := hL.payload_ne hb
  aligned := by
    obtain ⟨r, hr, hb⟩ := mem_blocks.mp hb
    exact ((hL.regions r hr).block hb).payload_aligned
  fits := hL.payload_le hb
  other := by
    rintro k ⟨c, hc, hne, rfl⟩ heq
    exact hne (hL.payload_inj hc hb heq)
  apart := by
    rintro k ⟨c, hc, hne, rfl⟩ x hx hy
    exact hne (hL.payload_unique hc hb hy hx)

theorem Gains.leases (h : Gains L b L') : leases L' = insert b.lease (leases L) := by
  ext ℓ
  constructor
  · rintro ⟨c, hc, rfl⟩
    rcases (h.blocks c).mp hc with rfl | hc
    · exact .inl rfl
    · exact .inr ⟨c, hc, rfl⟩
  · rintro (rfl | ⟨c, hc, rfl⟩)
    · exact ⟨b, (h.blocks b).mpr (.inl rfl), rfl⟩
    · exact ⟨c, (h.blocks c).mpr (.inr hc), rfl⟩

theorem Loses.leases (h : Loses L b L') (hL : Ok L) (hb : b ∈ Liballoc.blocks L) :
    leases L' = {ℓ ∈ leases L | b.payload ≠ ℓ.pointer} := by
  ext ℓ
  constructor
  · rintro ⟨c, hc, rfl⟩
    obtain ⟨hcL, hne⟩ := (h.blocks c).mp hc
    exact ⟨⟨c, hcL, rfl⟩, fun heq => hne (hL.payload_inj hb hcL heq).symm⟩
  · rintro ⟨⟨c, hc, rfl⟩, hne⟩
    exact ⟨c, (h.blocks c).mpr ⟨hc, fun heq => hne (by rw [heq]; rfl)⟩, rfl⟩

end

/-! ## Calls -/

section
variable {ε σ : Type}

/-- What the calls answer. -/
inductive Serves (H : Hooks ε σ) (s : State σ) : Event 32 → State σ → Prop
  | malloc {n p : Word} {s' : State σ} (h : (kmalloc H n).run s = (.ok p, s')) : Serves H s (.malloc n.toNat p) s'
  | calloc {nobj size p : Word} {s' : State σ} (h : (kcalloc H nobj size).run s = (.ok p, s')) :
      Serves H s (.calloc (nobj * size).toNat p) s'
  | realloc {p n q : Word} {s' : State σ} (h : (krealloc H p n).run s = (.ok q, s')) :
      Serves H s (.realloc p n.toNat q) s'
  | free {p : Word} {s' : State σ} (h : (kfree H p).run s = (.ok (), s')) : Serves H s (.free p) s'
  | write {x : Word} {c : BitVec 8} : Serves H s (.write x c) { s with memory := Function.update s.memory x c }

/-- What the users keep to, and which answers are no refusals. -/
inductive Allowed (live : Set (Lease 32)) : Event 32 → Prop
  | malloc {n : Nat} {p : Word} (hn : n + 80 < 2 ^ 32) : Allowed live (.malloc n p)
  | calloc {n : Nat} {p : Word} (hn : n + 80 < 2 ^ 32) (hp : p ≠ NULL) : Allowed live (.calloc n p)
  | realloc {p q : Word} {n : Nat} (hp : p = NULL ∨ ∃ ℓ ∈ live, ℓ.pointer = p) (hn : n + 80 < 2 ^ 32)
      (hq : n ≠ 0 → q ≠ NULL) : Allowed live (.realloc p n q)
  | free {p : Word} (hp : p = NULL ∨ ∃ ℓ ∈ live, ℓ.pointer = p) : Allowed live (.free p)
  | write {x : Word} {c : BitVec 8} (hx : ∃ ℓ ∈ live, ℓ.Has x) : Allowed live (.write x c)

/-- The state has the leases of `live` and no others. -/
def Holds (I : σ → List Pages → Prop) (s : State σ) (live : Set (Lease 32)) : Prop :=
  ∃ L, Good I s L ∧ Tidy L ∧ leases L = live

/-- What a step of the heap comes to. -/
structure Served (I : σ → List Pages → Prop) (live : Set (Lease 32)) (s : State σ) (e : Event 32) (s' : State σ) :
    Prop where
  holds : Holds I s' (e.after live)
  promised : Promised 16 ⟨live, s.memory⟩ e ⟨e.after live, s'.memory⟩

variable {H : Hooks ε σ} {I : σ → List Pages → Prop} {s s' : State σ} {live : Set (Lease 32)} {L L' : List Region}
  {b c : Block} {n p q : Word} {e : Event 32}

/-- A step after which the heap is `L'`. -/
theorem served_of (hgood : Good I s' L') (htidy : Tidy L') (hleases : leases L' = e.after (leases L))
    (hfresh : ∀ ℓ, e.granted = some ℓ → ∃ b ∈ blocks L', b.lease = ℓ ∧
      ∀ c ∈ blocks L, e.ended ≠ some c.payload → c ∈ blocks L' ∧ c ≠ b)
    (hkept : ∀ c ∈ blocks L, e.ended ≠ some c.payload → ∀ x, c.Payload x → ¬ e.Writes x → s'.memory x = s.memory x)
    (hcontents : e.Contents ⟨leases L, s.memory⟩ s'.memory) : Served I (leases L) s e s' where
  holds := ⟨L', hgood, htidy, hleases⟩
  promised := by
    refine ⟨rfl, fun ℓ hℓ => ?_, ?_, hcontents⟩
    · obtain ⟨b, hb, rfl, hothers⟩ := hfresh ℓ hℓ
      refine (hgood.rep.ok.lease_fresh hb).mono ?_
      rintro k ⟨⟨c, hc, rfl⟩, hne⟩
      obtain ⟨hc', hcb⟩ := hothers c hc hne
      exact ⟨c, hc', hcb, rfl⟩
    · rintro ℓ ⟨c, hc, rfl⟩ hne x hx hnot
      exact hkept c hc hne x hx hnot

/-- A step with which no lease starts or ends. -/
theorem served_same (hgood : Good I s' L) (htidy : Tidy L) (hgranted : e.granted = none)
    (hends : ∀ c ∈ blocks L, e.ended ≠ some c.payload)
    (hkept : ∀ c ∈ blocks L, ∀ x, c.Payload x → ¬ e.Writes x → s'.memory x = s.memory x)
    (hcontents : e.Contents ⟨leases L, s.memory⟩ s'.memory) : Served I (leases L) s e s' := by
  refine served_of hgood htidy ?_ (fun ℓ hℓ => ?_) (fun c hc _ => hkept c hc) hcontents
  · ext ℓ
    refine ⟨?_, fun hℓ => ?_⟩
    · rintro ⟨c, hc, rfl⟩
      exact .inr ⟨⟨c, hc, rfl⟩, hends c hc⟩
    · rcases hℓ with hnew | hold
      · rw [hgranted] at hnew
        cases hnew
      · exact hold.1
  · rw [hgranted] at hℓ
    cases hℓ

/-- A step with which a lease starts and none ends. -/
theorem served_gains (hgains : Gains L b L') (hgood : Good I s' L') (htidy : Tidy L)
    (hgranted : e.granted = some b.lease) (hends : ∀ c ∈ blocks L, e.ended ≠ some c.payload)
    (hkept : ∀ c ∈ blocks L, ∀ x, c.Payload x → s'.memory x = s.memory x)
    (hcontents : e.Contents ⟨leases L, s.memory⟩ s'.memory) : Served I (leases L) s e s' := by
  refine served_of hgood (hgains.tidy htidy) ?_ (fun ℓ hℓ => ?_) (fun c hc _ x hx _ => hkept c hc x hx) hcontents
  · rw [hgains.leases]
    ext ℓ
    refine ⟨?_, fun hℓ => ?_⟩
    · rintro (rfl | ⟨c, hc, rfl⟩)
      · exact .inl hgranted
      · exact .inr ⟨⟨c, hc, rfl⟩, hends c hc⟩
    · rcases hℓ with hnew | hold
      · exact .inl (Option.some.inj (hgranted.symm.trans hnew)).symm
      · exact .inr hold.1
  · refine ⟨b, (hgains.blocks b).mpr (.inl rfl), Option.some.inj (hgranted.symm.trans hℓ), fun c hc _ => ?_⟩
    exact ⟨(hgains.blocks c).mpr (.inr hc), fun heq => hgains.fresh (heq ▸ hc)⟩

/-- A step with which the lease of `b` ends and none starts. -/
theorem served_loses (hL : Ok L) (hb : b ∈ blocks L) (hloses : Loses L b L') (hgood : Good I s' L') (htidy : Tidy L)
    (hgranted : e.granted = none) (hended : e.ended = some b.payload)
    (hkept : PayloadsKept (blocks L') s.memory s'.memory)
    (hcontents : e.Contents ⟨leases L, s.memory⟩ s'.memory) : Served I (leases L) s e s' := by
  refine served_of hgood (hloses.tidy htidy) ?_ (fun ℓ hℓ => ?_) (fun c hc hne x hx _ => ?_) hcontents
  · rw [hloses.leases hL hb]
    ext ℓ
    refine ⟨fun hℓ => .inr ⟨hℓ.1, ?_⟩, fun hℓ => ?_⟩
    · rw [hended]
      exact fun heq => hℓ.2 (Option.some.inj heq)
    · rcases hℓ with hnew | hold
      · rw [hgranted] at hnew
        cases hnew
      · refine ⟨hold.1, fun heq => hold.2 ?_⟩
        rw [hended, heq]
  · rw [hgranted] at hℓ
    cases hℓ
  · refine hkept c ((hloses.blocks c).mpr ⟨hc, fun heq => hne ?_⟩) x hx
    rw [hended, heq]

/-- A step with which the lease of `b` ends and that of `c` starts. -/
theorem served_replaced (hL : Ok L) (hb : b ∈ blocks L)
    (hblocks : ∀ d, d ∈ blocks L' ↔ d = c ∨ d ∈ blocks L ∧ d ≠ b) (hgood : Good I s' L') (htidy : Tidy L')
    (hgranted : e.granted = some c.lease) (hended : e.ended = some b.payload)
    (hfresh : ∀ d ∈ blocks L, d ≠ b → d ≠ c)
    (hkept : ∀ d ∈ blocks L, d ≠ b → ∀ x, d.Payload x → s'.memory x = s.memory x)
    (hcontents : e.Contents ⟨leases L, s.memory⟩ s'.memory) : Served I (leases L) s e s' := by
  have hstays : ∀ d ∈ blocks L, e.ended ≠ some d.payload → d ≠ b := fun d _ hne heq => hne (by rw [hended, heq])
  refine served_of hgood htidy ?_ (fun ℓ hℓ => ?_) (fun d hd hne x hx _ => hkept d hd (hstays d hd hne) x hx) hcontents
  · ext ℓ
    constructor
    · rintro ⟨d, hd, rfl⟩
      rcases (hblocks d).mp hd with rfl | ⟨hdL, hdb⟩
      · exact .inl hgranted
      · refine .inr ⟨⟨d, hdL, rfl⟩, ?_⟩
        rw [hended]
        exact fun heq => hdb (hL.payload_inj hb hdL (Option.some.inj heq)).symm
    · rintro (hnew | ⟨⟨d, hd, rfl⟩, hne⟩)
      · exact ⟨c, (hblocks c).mpr (.inl rfl), Option.some.inj (hgranted.symm.trans hnew)⟩
      · exact ⟨d, (hblocks d).mpr (.inr ⟨hd, hstays d hd hne⟩), rfl⟩
  · refine ⟨c, (hblocks c).mpr (.inl rfl), Option.some.inj (hgranted.symm.trans hℓ), fun d hd hne => ?_⟩
    have hdb := hstays d hd hne
    exact ⟨(hblocks d).mpr (.inr ⟨hd, hdb⟩), hfresh d hd hdb⟩

/-! ## The steps -/

theorem granted_malloc {k : Nat} (hp : p ≠ NULL) : (Event.malloc k p).granted = some ⟨p, k⟩ := if_neg hp

theorem malloc_served (hH : H.Sound I) (h : Good I s L) (htidy : Tidy L) (hn : n.toNat + 80 < 2 ^ 32)
    (hrun : (kmalloc H n).run s = (.ok p, s')) : Served I (leases L) s (.malloc n.toNat p) s' := by
  rcases ((kmalloc_ends hH h hn).ok hrun).cases with
    ⟨rfl, hgood', hkept⟩ | ⟨b, L', rfl, hreq, -, hgains, hgood', hkept⟩
  · exact served_same hgood' htidy rfl nofun (fun c hc x hx _ => hkept c hc x hx) trivial
  · have hb := hgood'.rep.ok.payload_ne ((hgains.blocks b).mpr (.inl rfl))
    refine served_gains hgains hgood' htidy ?_ nofun hkept trivial
    rw [granted_malloc hb, ← hreq]
    rfl

theorem calloc_served {nobj size : Word} (hH : H.Sound I) (h : Good I s L) (htidy : Tidy L)
    (hn : (nobj * size).toNat + 80 < 2 ^ 32) (hp : p ≠ NULL) (hrun : (kcalloc H nobj size).run s = (.ok p, s')) :
    Served I (leases L) s (.calloc (nobj * size).toNat p) s' := by
  obtain ⟨s₁, hs₁, rfl⟩ := (kcalloc_ends hH h hn).ok hrun
  rcases hs₁.cases with ⟨rfl, -⟩ | ⟨b, L', rfl, hreq, -, hgains, hgood', hkept⟩
  · exact absurd rfl hp
  have hb : b ∈ blocks L' := (hgains.blocks b).mpr (.inl rfl)
  obtain ⟨r, hr, hbr⟩ := mem_blocks.mp hb
  obtain ⟨hinside, houtside⟩ := filled_payload (m := s₁.memory) (v := 0) ((hgood'.rep.ok.regions r hr).block hbr)
  rw [← hreq]
  refine served_gains hgains (hgood'.written hb houtside) htidy (if_neg hp) nofun (fun c hc x hx => ?_) fun _ => hinside
  refine (houtside x fun hy => hgains.fresh ?_).trans (hkept c hc x hx)
  rwa [← hgood'.rep.ok.payload_unique ((hgains.blocks c).mpr (.inr hc)) hb hx hy]

theorem free_served (hH : H.Sound I) (h : Good I s L) (htidy : Tidy L)
    (hp : p = NULL ∨ ∃ ℓ ∈ leases L, ℓ.pointer = p) (hrun : (kfree H p).run s = (.ok (), s')) :
    Served I (leases L) s (.free p) s' := by
  rcases hp with rfl | ⟨ℓ, ⟨b, hb, rfl⟩, rfl⟩
  · rw [kfree, if_pos rfl] at hrun
    cases hrun
    refine served_same ⟨h.rep.agree (fun _ _ => rfl) rfl rfl rfl rfl, h.given⟩ htidy rfl (fun c hc heq => ?_)
      (fun _ _ _ _ _ => rfl) trivial
    exact h.rep.ok.payload_ne hc (Option.some.inj heq).symm
  · obtain ⟨L', hloses, hgood', hkept⟩ := (kfree_block_ends hH h hb).ok hrun
    exact served_loses h.rep.ok hb hloses hgood' htidy rfl rfl hkept trivial

theorem write_served {x : Word} {c : BitVec 8} (h : Good I s L) (htidy : Tidy L) (hx : ∃ ℓ ∈ leases L, ℓ.Has x) :
    Served I (leases L) s (.write x c) { s with memory := Function.update s.memory x c } := by
  obtain ⟨ℓ, ⟨b, hb, rfl⟩, hx⟩ := hx
  have hne : ∀ y, ¬ y = x → Function.update s.memory x c y = s.memory y := fun y hy => Function.update_of_ne hy ..
  refine served_same (h.written hb fun y hy => hne y fun heq => hy (heq ▸ hx)) htidy rfl nofun
    (fun d hd y hy hnot => hne y fun heq => hnot ⟨c, by rw [heq]⟩) rfl

/-- `krealloc` of `NULL` is `kmalloc`, or a `kfree` of `NULL`. -/
theorem realloc_null_served (hH : H.Sound I) (h : Good I s L) (htidy : Tidy L) (hn : n.toNat + 80 < 2 ^ 32)
    (hq : n.toNat ≠ 0 → q ≠ NULL) (hrun : (krealloc H NULL n).run s = (.ok q, s')) :
    Served I (leases L) s (.realloc NULL n.toNat q) s' := by
  have hends : ∀ c ∈ blocks L, (Event.realloc NULL n.toNat q).ended ≠ some c.payload := fun c hc heq =>
    h.rep.ok.payload_ne hc (Option.some.inj heq).symm
  have hnull : ∀ ℓ ∈ leases L, ℓ.pointer ≠ NULL := by
    rintro ℓ ⟨c, hc, rfl⟩
    exact h.rep.ok.payload_ne hc
  have hcontents : ∀ m, (Event.realloc NULL n.toNat q).Contents ⟨leases L, s.memory⟩ m := fun m _ ℓ hℓ heq =>
    absurd heq (hnull ℓ hℓ)
  by_cases hzero : n = 0
  · subst hzero
    rw [krealloc, if_pos rfl, kfree, if_pos rfl] at hrun
    cases hrun
    exact served_same ⟨h.rep.agree (fun _ _ => rfl) rfl rfl rfl rfl, h.given⟩ htidy rfl hends
      (fun _ _ _ _ _ => rfl) (hcontents _)
  · have hpos : n.toNat ≠ 0 := fun hz => hzero (BitVec.eq_of_toNat_eq hz)
    rw [krealloc, if_neg hzero, if_pos rfl] at hrun
    rcases ((kmalloc_ends hH h hn).ok hrun).cases with ⟨rfl, -⟩ | ⟨b, L', rfl, hreq, -, hgains, hgood', hkept⟩
    · exact absurd rfl (hq hpos)
    · refine served_gains hgains hgood' htidy ?_ hends hkept (hcontents _)
      rw [← hreq]
      exact if_neg (hreq ▸ hpos)

theorem realloc_block_served (hH : H.Sound I) (h : Good I s L) (htidy : Tidy L) (hb : b ∈ blocks L)
    (hn : n.toNat + 80 < 2 ^ 32) (hq : n.toNat ≠ 0 → q ≠ NULL) (hrun : (krealloc H b.payload n).run s = (.ok q, s')) :
    Served I (leases L) s (.realloc b.payload n.toNat q) s' := by
  have hL := h.rep.ok
  have hunique : ∀ ℓ ∈ leases L, ℓ.pointer = b.payload → ℓ = b.lease := by
    rintro ℓ ⟨c, hc, rfl⟩ heq
    rw [hL.payload_inj hc hb heq]
  cases (krealloc_ends hH h hb hn).ok hrun with
  | freed L' s' hzero hloses hgood' hkept =>
    subst hzero
    exact served_loses hL hb hloses hgood' htidy rfl rfl hkept fun hne => absurd rfl hne
  | shrunk L' s' hne hle hblocks htidy' hgood' hkept =>
    have hpos : n.toNat ≠ 0 := fun hz => hne (BitVec.eq_of_toNat_eq hz)
    refine served_replaced hL hb hblocks hgood' (htidy' htidy) (if_neg hpos) rfl (fun c hc hcb heq => hcb ?_)
      (fun c hc _ => hkept c hc) fun _ ℓ hℓ heq i _ hi => ?_
    · exact hL.payload_inj hc hb (by rw [heq]; rfl)
    · rw [hunique ℓ hℓ heq] at hi
      exact hkept b hb _ (hL.payload_at hb hi)
  | moved c L₁ L' s' hlt hreq hgains hloses hgood' hkept hmoved =>
    have hpos : n.toNat ≠ 0 := by omega
    have hne : c ≠ b := fun heq => hgains.fresh (heq ▸ hb)
    have hgranted : (Event.realloc b.payload n.toNat c.payload).granted = some c.lease := by
      rw [← hreq]
      exact if_neg (hreq ▸ hpos)
    refine served_replaced hL hb (fun d => ?_) hgood' (hloses.tidy (hgains.tidy htidy)) hgranted rfl
      (fun d hd _ heq => hgains.fresh (heq ▸ hd)) hkept fun _ ℓ hℓ heq i _ hi => ?_
    · rw [hloses.blocks, hgains.blocks]
      refine ⟨fun hd => hd.1.imp id fun hold => ⟨hold, hd.2⟩, ?_⟩
      rintro (rfl | ⟨hold, hdb⟩)
      · exact ⟨.inl rfl, hne⟩
      · exact ⟨.inr hold, hdb⟩
    · rw [hunique ℓ hℓ heq] at hi
      exact hmoved i hi
  | refused s₁ s' hlt =>
    have hpos : n.toNat ≠ 0 := by omega
    exact absurd rfl (hq hpos)

theorem serves_served (hH : H.Sound I) (h : Holds I s live) (hallowed : Allowed live e) (hserves : Serves H s e s') :
    Served I live s e s' := by
  obtain ⟨L, hgood, htidy, rfl⟩ := h
  cases hserves with
  | malloc hrun =>
    cases hallowed with
    | malloc hn => exact malloc_served hH hgood htidy hn hrun
  | calloc hrun =>
    cases hallowed with
    | calloc hn hp => exact calloc_served hH hgood htidy hn hp hrun
  | realloc hrun =>
    cases hallowed with
    | realloc hp hn hq =>
      rcases hp with rfl | ⟨ℓ, ⟨b, hb, rfl⟩, rfl⟩
      · exact realloc_null_served hH hgood htidy hn hq hrun
      · exact realloc_block_served hH hgood htidy hb hn hq hrun
  | free hrun =>
    cases hallowed with
    | free hp => exact free_served hH hgood htidy hp hrun
  | write =>
    cases hallowed with
    | write hx => exact write_served hgood htidy hx

/-! ## Runs -/

/-- A step of the heap, with the leases in force. -/
def Step (H : Hooks ε σ) (t : State σ × Set (Lease 32)) (e : Event 32) (t' : State σ × Set (Lease 32)) : Prop :=
  Serves H t.1 e t'.1 ∧ t'.2 = e.after t.2

/-- A run in which the users keep to what is allowed. -/
abbrev UserRun (H : Hooks ε σ) : State σ × Set (Lease 32) → List (Event 32) → State σ × Set (Lease 32) → Prop :=
  Run (Within (Step H) fun t e => Allowed t.2 e)

variable {t t' : State σ × Set (Lease 32)} {es es' : List (Event 32)} {memory : Memory 32} {flags : Hal.Flags}
  {pages : σ} {ℓ : Lease 32} {x : Word}

theorem holds_fresh (hI : I pages []) : Holds I (State.fresh memory flags pages) ∅ := by
  refine ⟨[], ⟨⟨⟨nofun, .nil⟩, rfl, trivial, nofun, nofun, .inl rfl, rfl, rfl⟩, [], hI, .nil⟩, nofun, ?_⟩
  ext ℓ
  exact ⟨fun ⟨b, hb, _⟩ => by simp [blocks] at hb, fun h => h.elim⟩

/-- A run keeps the heap in order, and is one that an allocator promises. -/
theorem UserRun.promised (hH : H.Sound I) (h : UserRun H t es t') (hs : Holds I t.1 t.2) :
    Holds I t'.1 t'.2 ∧ Run (Promised 16) ⟨t.2, t.1.memory⟩ es ⟨t'.2, t'.1.memory⟩ := by
  refine Run.simulates (f := fun t : State σ × Set (Lease 32) => (⟨t.2, t.1.memory⟩ : Book 32))
    (J := fun t : State σ × Set (Lease 32) => Holds I t.1 t.2) (fun t e t' hJ hstep => ?_) h hs
  obtain ⟨hallowed, hserves, hafter⟩ := hstep
  have hserved := serves_served hH hJ hallowed hserves
  rw [hafter]
  exact ⟨hserved.holds, hserved.promised⟩

theorem UserRun.holds (hH : H.Sound I) (hI : I pages [])
    (h : UserRun H (State.fresh memory flags pages, ∅) es t) : Holds I t.1 t.2 :=
  (UserRun.promised hH h (holds_fresh hI)).1

/-- A heap without leases has no region. -/
theorem Holds.released (h : Holds I s ∅) : s.l_memRoot = NULL ∧ s.l_allocated = 0 ∧ s.l_inuse = 0 ∧ I s.pages [] := by
  obtain ⟨L, hgood, htidy, hleases⟩ := h
  have hempty : L = [] := by
    cases L with
    | nil => rfl
    | cons r rest =>
      obtain ⟨b, hb⟩ := List.exists_mem_of_ne_nil _ (htidy r List.mem_cons_self)
      have hmem : b.lease ∈ leases (r :: rest) := ⟨b, mem_blocks.mpr ⟨r, List.mem_cons_self, hb⟩, rfl⟩
      rw [hleases] at hmem
      exact hmem.elim
  subst hempty
  obtain ⟨chunks, hI, hperm⟩ := hgood.given
  obtain rfl := hperm.eq_nil
  exact ⟨hgood.rep.root, hgood.rep.allocated, hgood.rep.inuse, hI⟩

end

end Condor.Heap.Liballoc
