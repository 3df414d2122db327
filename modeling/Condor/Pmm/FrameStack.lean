import Condor.Pmm.Alloc

/-!
# The frame stack over an address space

`History` is the stack without its memory: the addresses pushed and not popped
since (`entries`), the frames that pushes have turned into list pages (`pages`),
and the index. `Sound s h` says the concrete stack stores `h`: the top page
holds the latest entries from its first slot on or, once a pop has run past the
first page's bottom, from the backlink word on.

A push keeps `Sound` (`Sound.push`). A pop keeps it, and its promise, exactly
when it is `PopOk`: from an index above 0, or from index 0 while the first list
page is still the top one (`Sound.pop`, `Sound.popOk`). Every other pop faults
or hands out a list page.
-/

namespace Condor.Pmm

open Lib

/-- The failure value of an allocation. -/
def FAIL : Nat := 0xFFFFFFFF

/-- What was pushed and not popped since, which frames became list pages, and the index. -/
structure History where
  entries : List Nat
  pages : List Nat
  index : Int

/-- The frame stack before its first push. -/
def History.empty : History := ⟨[], [], 0⟩

/-- The frames the stack holds, as entries or as list pages. -/
def History.frames (h : History) : List Nat := h.entries.map (· / 4096) ++ h.pages

/-- An address a push accepts: from 16 MiB on, of a frame the stack does not hold. -/
def PushOk (h : History) (addr : Nat) : Prop :=
  0x01000000 ≤ addr ∧ addr < FAIL ∧ addr / 4096 ∉ h.frames

instance (h : History) (addr : Nat) : Decidable (PushOk h addr) :=
  inferInstanceAs (Decidable (_ ∧ _ ∧ _))

/-- The history after a push. The first two frames and every frame that finds the page full store
the list. -/
def History.push (h : History) (addr : Nat) : History :=
  if h.pages.length < 2 then { h with pages := addr / 4096 :: h.pages }
  else if h.index = 1023 then { h with pages := addr / 4096 :: h.pages, index := 0 }
  else { h with entries := addr :: h.entries, index := h.index + 1 }

/-- The history after a pop that returned `r`. -/
def History.pop (h : History) (r : Nat) : History :=
  { h with entries := if r = FAIL then h.entries else h.entries.erase r, index := h.index - 1 }

/-- The pop is made on a mapped stack, above the first slot or at the bottom of the first page. -/
def PopOk (h : History) : Prop :=
  h.pages ≠ [] ∧ (0 < h.index ∨ h.index = 0 ∧ h.pages.length ≤ 2)

instance (h : History) : Decidable (PopOk h) := inferInstanceAs (Decidable (_ ∧ _))

/-- What a pop promises: it fails with nothing left but list pages, or returns an entry that is not
a list page. -/
def PopSound (h : History) (r : Nat) : Prop :=
  r = FAIL ∧ h.entries = [] ∨ r ≠ FAIL ∧ r ∈ h.entries ∧ r / 4096 ∉ h.pages

instance (h : History) (r : Nat) : Decidable (PopSound h r) := inferInstanceAs (Decidable (_ ∨ _))

/-! ## Addresses of the windows -/

theorem freeAddrs_eq (k : Nat) : freeAddrs ((k : Int) - 1) = STACK32 + 4 * k := by
  unfold freeAddrs; omega

theorem slot_page {k : Nat} (h : k < 1024) : (STACK32 + 4 * k) / 4096 = STACK32 / 4096 := by
  unfold STACK32 PMM_BASE; omega

theorem slot_word {k : Nat} (h : k < 1024) : (STACK32 + 4 * k) % 4096 / 4 = k := by
  unfold STACK32 PMM_BASE; omega

theorem stack32_aligned : STACK32 % 4096 = 0 := by decide
theorem stack32_word : STACK32 % 4096 / 4 = 0 := by decide
theorem stack64_aligned : STACK64 % 4096 = 0 := by decide
theorem windows_ne : STACK64 / 4096 ≠ STACK32 / 4096 := by decide

/-! ## The relation -/

/-- Page `p` is mapped at `stack32` and holds `top` from word `b` on, below the index. -/
structure OnPage (s : State AddrSpace) (p b : Nat) (top : List Nat) : Prop where
  frame : s.space.frame? (STACK32 / 4096) = some p
  index : s.stack32_index + 1 = b + top.length
  le : b + top.length ≤ 1024
  slots : ∀ i (h : i < top.length), s.space.frames p (b + i) = top[i]

/-- The backlink word of the top page: unused on the first page, a list page on the others. -/
def Backlink (s : State AddrSpace) (h : History) (p b : Nat) (old : List Nat) : Prop :=
  (h.pages.length ≤ 2 ∧ old = [] ∧ (b = 1 → s.space.frames p 0 = FAIL)) ∨
    (3 ≤ h.pages.length ∧ b = 1 ∧ ∃ q ∈ h.pages, s.space.frames p 0 = q * 4096)

/-- The second page is the one mapped at `stack64`. -/
def Page64 (s : State AddrSpace) (h : History) : Prop :=
  (s.space.frame? (STACK64 / 4096) = none ∧ h.pages.length = 1 ∧ h.entries = []) ∨
    (∃ q, s.space.frame? (STACK64 / 4096) = some q ∧ q ≠ 0 ∧ 2 ≤ h.pages.length)

/-- The concrete stack stores the history. -/
inductive Stores (s : State AddrSpace) (h : History) : Prop where
  | unmapped (h32 : s.space.frame? (STACK32 / 4096) = none)
      (h64 : s.space.frame? (STACK64 / 4096) = none) (hi : h.index = 0)
      (he : h.entries = []) (hp : h.pages = [])
  | mapped (p b : Nat) (top old : List Nat) (hon : OnPage s p b top) (hp : p ∈ h.pages) (hb : b ≤ 1)
      (he : h.entries = top.reverse ++ old) (hl : Backlink s h p b old) (h64 : Page64 s h)

/-- The invariant of the frame stack. -/
structure Sound (s : State AddrSpace) (h : History) : Prop where
  stores : Stores s h
  index : s.stack32_index = h.index
  nodup : h.frames.Nodup
  entry : ∀ e ∈ h.entries, 0x01000000 ≤ e ∧ e < FAIL
  page : ∀ p ∈ h.pages, 0x1000 ≤ p ∧ p < 0x100000

/-- Before the first push. -/
theorem sound_empty {s : State AddrSpace} (h32 : s.space.frame? (STACK32 / 4096) = none)
    (h64 : s.space.frame? (STACK64 / 4096) = none) (hi : s.stack32_index = 0) :
    Sound s .empty where
  stores := .unmapped h32 h64 rfl rfl rfl
  index := hi
  nodup := List.nodup_nil
  entry _ h := nomatch h
  page _ h := nomatch h

variable {s : State AddrSpace} {h : History} {addr : Nat}

theorem Sound.not_page (hs : Sound s h) {e : Nat} (he : e ∈ h.entries) : e / 4096 ∉ h.pages := by
  intro hp
  exact (List.nodup_append.mp hs.nodup).2.2 _ (List.mem_map_of_mem he) _ hp rfl

/-! ## What a push computes -/

/-- The address space with `addr`'s frame mapped at `page` and filled with ones. -/
def withStackPage (m : AddrSpace) (page addr flags : Nat) : AddrSpace :=
  AddrSpace.setFrame
    { m with pte := Function.update m.pte (page / 4096) (addr / 4096 * 4096 + flags % 4096) }
    (addr / 4096) (fun k => if k < 1024 then FAIL else m.frames (addr / 4096) k)

theorem withStackPage_frame {m : AddrSpace} {page flags : Nat} (hf : flags % 2 = 1) :
    (withStackPage m page addr flags).frame? (page / 4096) = some (addr / 4096) := by
  rw [withStackPage, AddrSpace.frame?_setFrame, AddrSpace.frame?_update_self hf]

theorem withStackPage_frame_ne {m : AddrSpace} {page flags page' : Nat} (h : page' ≠ page / 4096) :
    (withStackPage m page addr flags).frame? page' = m.frame? page' := by
  rw [withStackPage, AddrSpace.frame?_setFrame, AddrSpace.frame?_update_ne h]

theorem withStackPage_frames {m : AddrSpace} {page flags k : Nat} (hk : k < 1024) :
    (withStackPage m page addr flags).frames (addr / 4096) k = FAIL := by
  rw [withStackPage, AddrSpace.setFrame_frames_self, if_pos hk]

theorem withStackPage_frames_ne {m : AddrSpace} {page flags f : Nat} (hf : f ≠ addr / 4096) :
    (withStackPage m page addr flags).frames f = m.frames f :=
  AddrSpace.setFrame_frames_ne hf _

theorem map_stack_page_eq {m : AddrSpace} {page flags : Nat} (hpage : page % 4096 = 0)
    (ha : addr < FAIL) (hf : flags % 2 = 1)
    (hu : m.frame? (page / 4096) = none ∨ flags &&& PAGE_REMAP ≠ 0) :
    map_stack_page AddrSpace.paging m page addr flags = .ok (withStackPage m page addr flags) := by
  unfold map_stack_page
  rw [AddrSpace.map_ok (by unfold FAIL at ha; omega) hu]
  exact AddrSpace.memset_ok hpage (AddrSpace.frame?_update_self hf _)

/-- The first push: the frame becomes the first list page. -/
theorem push_first (h32 : s.space.frame? (STACK32 / 4096) = none) (ha : addr < FAIL) :
    stack_push AddrSpace.paging s addr =
      .ok { s with space := withStackPage s.space STACK32 addr (PAGE_PRESENT ||| PAGE_RW) } := by
  unfold stack_push
  rw [AddrSpace.getPhys_of_none h32]
  show (map_stack_page _ _ _ _ _ >>= _) = _
  rw [map_stack_page_eq stack32_aligned ha (by decide) (.inl h32)]
  rfl

/-- A mapped window is not at physical address zero. -/
theorem getPhys_window {m : AddrSpace} {page p : Nat} (hpage : page % 4096 = 0)
    (hm : m.frame? (page / 4096) = some p) :
    AddrSpace.paging.vmm_get_physical_addr m page = .ok (p * 4096) := by
  rw [AddrSpace.getPhys_of_frame hm, hpage, Nat.add_zero]

/-- The second push: the frame becomes the page of the 64-bit stack. -/
theorem push_second {p : Nat} (h32 : s.space.frame? (STACK32 / 4096) = some p) (hp : p ≠ 0)
    (h64 : s.space.frame? (STACK64 / 4096) = none) (ha : addr < FAIL) :
    stack_push AddrSpace.paging s addr =
      .ok { s with space := withStackPage s.space STACK64 addr (PAGE_PRESENT ||| PAGE_RW) } := by
  unfold stack_push
  rw [getPhys_window stack32_aligned h32]
  show (if p * 4096 = 0 then _ else _) = _
  rw [if_neg (by omega), AddrSpace.getPhys_of_none h64]
  show (map_stack_page _ _ _ _ _ >>= _) = _
  rw [map_stack_page_eq stack64_aligned ha (by decide) (.inl h64)]
  rfl

/-- A push once both windows are mapped. -/
theorem stack_push_mapped {p q : Nat} (h32 : s.space.frame? (STACK32 / 4096) = some p) (hp : p ≠ 0)
    (h64 : s.space.frame? (STACK64 / 4096) = some q) (hq : q ≠ 0) (ha : addr < FAIL) :
    stack_push AddrSpace.paging s addr =
      if s.stack32_index = 1023 then
        map_stack_page AddrSpace.paging s.space STACK32 addr (PAGE_PRESENT ||| PAGE_RW ||| PAGE_REMAP) >>=
          fun m => AddrSpace.paging.store m STACK32 (p * 4096) >>= fun m =>
            .ok { s with space := m, stack32_index := 0 }
      else AddrSpace.paging.store s.space (freeAddrs s.stack32_index) addr >>= fun m =>
        .ok { s with space := m, stack32_index := s.stack32_index + 1 } := by
  unfold stack_push
  rw [getPhys_window stack32_aligned h32]
  show (if p * 4096 = 0 then _ else _) = _
  rw [if_neg (by omega), getPhys_window stack64_aligned h64]
  show (if q * 4096 = 0 then _ else _) = _
  rw [if_neg (by omega), if_neg (by unfold FAIL at ha; omega)]
  rfl

/-- A push on a full page: the frame becomes the top list page, linked to the old one. -/
theorem push_full {p q : Nat} (h32 : s.space.frame? (STACK32 / 4096) = some p) (hp : p ≠ 0)
    (h64 : s.space.frame? (STACK64 / 4096) = some q) (hq : q ≠ 0) (hi : s.stack32_index = 1023)
    (ha : addr < FAIL) :
    ∃ m, stack_push AddrSpace.paging s addr = .ok { s with space := m, stack32_index := 0 } ∧
      m = (withStackPage s.space STACK32 addr (PAGE_PRESENT ||| PAGE_RW ||| PAGE_REMAP)).setFrame
        (addr / 4096) (Function.update (fun k => if k < 1024 then FAIL else
          s.space.frames (addr / 4096) k) 0 (p * 4096)) := by
  refine ⟨_, ?_, rfl⟩
  rw [stack_push_mapped h32 hp h64 hq ha, if_pos hi,
    map_stack_page_eq stack32_aligned ha (by decide) (.inr (by decide))]
  show (AddrSpace.paging.store _ _ _ >>= _) = _
  rw [AddrSpace.store_of_frame (withStackPage_frame (by decide)), withStackPage,
    AddrSpace.setFrame_frames_self]
  rfl

/-- A push on a page with room: the address goes to the next slot. -/
theorem push_room {p q k : Nat} (h32 : s.space.frame? (STACK32 / 4096) = some p) (hp : p ≠ 0)
    (h64 : s.space.frame? (STACK64 / 4096) = some q) (hq : q ≠ 0) (hi : s.stack32_index + 1 = k)
    (hk : k < 1024) (ha : addr < FAIL) :
    stack_push AddrSpace.paging s addr =
      .ok { s with
        space := s.space.setFrame p (Function.update (s.space.frames p) k addr)
        stack32_index := s.stack32_index + 1 } := by
  rw [stack_push_mapped h32 hp h64 hq ha, if_neg (by omega),
    show s.stack32_index = (k : Int) - 1 by omega, freeAddrs_eq,
    AddrSpace.store_of_frame (f := p) (by rw [slot_page hk]; exact h32), slot_word hk]
  rfl

/-! ## A push keeps the relation -/

theorem History.push_page (hc : h.pages.length < 2 ∨ h.index = 1023) :
    (h.push addr).entries = h.entries ∧ (h.push addr).pages = addr / 4096 :: h.pages := by
  unfold History.push
  split
  · exact ⟨rfl, rfl⟩
  · rw [if_pos (hc.resolve_left ‹_›)]
    exact ⟨rfl, rfl⟩

theorem History.push_entry (h2 : 2 ≤ h.pages.length) (hi : h.index ≠ 1023) :
    h.push addr = { h with entries := addr :: h.entries, index := h.index + 1 } := by
  rw [History.push, if_neg (by omega), if_neg hi]

/-- A push adds one frame, to the entries or to the pages. -/
theorem History.frames_push : (h.push addr).frames.Perm (addr / 4096 :: h.frames) := by
  unfold History.push
  split
  · exact List.perm_middle
  split
  · exact List.perm_middle
  · exact List.Perm.refl _

/-- What a push does to the bounds. -/
theorem Sound.of_push {s' : State AddrSpace} (hs : Sound s h) (ha : PushOk h addr)
    (hst : Stores s' (h.push addr)) (hi : s'.stack32_index = (h.push addr).index) :
    Sound s' (h.push addr) := by
  obtain ⟨hlo, hhi, hfresh⟩ := ha
  refine ⟨hst, hi, ?_, fun e he => ?_, fun p hp => ?_⟩
  · rw [History.frames_push.nodup_iff]
    exact List.nodup_cons.mpr ⟨hfresh, hs.nodup⟩
  · by_cases hc : h.pages.length < 2 ∨ h.index = 1023
    · rw [(History.push_page hc).1] at he
      exact hs.entry e he
    · rw [History.push_entry (by omega) (by omega)] at he
      rcases List.mem_cons.mp he with rfl | he
      · exact ⟨hlo, hhi⟩
      · exact hs.entry e he
  · by_cases hc : h.pages.length < 2 ∨ h.index = 1023
    · rw [(History.push_page hc).2] at hp
      rcases List.mem_cons.mp hp with rfl | hp
      · unfold FAIL at hhi
        omega
      · exact hs.page p hp
    · rw [History.push_entry (by omega) (by omega)] at hp
      exact hs.page p hp

theorem Sound.push_unmapped (hs : Sound s h) (ha : PushOk h addr)
    (h32 : s.space.frame? (STACK32 / 4096) = none) (h64 : s.space.frame? (STACK64 / 4096) = none)
    (hi : h.index = 0) (he : h.entries = []) (hp : h.pages = []) :
    ∃ s', stack_push AddrSpace.paging s addr = .ok s' ∧ Sound s' (h.push addr) := by
  have hpush : h.push addr = { h with pages := [addr / 4096] } := by
    rw [History.push, if_pos (by simp [hp]), hp]
  refine ⟨_, push_first h32 ha.2.1, hs.of_push ha ?_ (by rw [hpush]; exact hs.index)⟩
  rw [hpush]
  refine .mapped (addr / 4096) 1 [] [] ⟨withStackPage_frame (by decide), ?_, by simp,
    fun i h => nomatch h⟩ (by simp) (Nat.le_refl 1) he (.inl ⟨by simp, rfl, fun _ => ?_⟩)
    (.inl ⟨?_, rfl, he⟩)
  · simp [hs.index, hi]
  · exact withStackPage_frames (by decide)
  · exact (withStackPage_frame_ne windows_ne).trans h64

theorem OnPage.transport {s' : State AddrSpace} {p b : Nat} {top : List Nat} (hon : OnPage s p b top)
    (hf : s'.space.frame? (STACK32 / 4096) = s.space.frame? (STACK32 / 4096))
    (hi : s'.stack32_index = s.stack32_index) (hm : s'.space.frames p = s.space.frames p) :
    OnPage s' p b top :=
  ⟨by rw [hf]; exact hon.frame, by rw [hi]; exact hon.index, hon.le,
    fun i h => by rw [hm]; exact hon.slots i h⟩

theorem Sound.push_page64 {p b : Nat} {top old : List Nat} (hs : Sound s h) (ha : PushOk h addr)
    (hon : OnPage s p b top) (hp : p ∈ h.pages) (hb : b ≤ 1) (he : h.entries = top.reverse ++ old)
    (hl : Backlink s h p b old) (h64 : s.space.frame? (STACK64 / 4096) = none)
    (hlen : h.pages.length = 1) :
    ∃ s', stack_push AddrSpace.paging s addr = .ok s' ∧ Sound s' (h.push addr) := by
  have hne : p ≠ addr / 4096 := by
    rintro rfl
    exact ha.2.2 (by simp [History.frames, hp])
  have hm : (withStackPage s.space STACK64 addr (PAGE_PRESENT ||| PAGE_RW)).frames p =
      s.space.frames p := withStackPage_frames_ne hne
  have hp0 : p ≠ 0 := by have := hs.page p hp; omega
  have hpush : h.push addr = { h with pages := addr / 4096 :: h.pages } := by
    rw [History.push, if_pos (by omega)]
  refine ⟨_, push_second hon.frame hp0 h64 ha.2.1, hs.of_push ha ?_ (by rw [hpush]; exact hs.index)⟩
  rw [hpush]
  refine .mapped p b top old (hon.transport (withStackPage_frame_ne windows_ne.symm) rfl hm)
    (by simp [hp]) hb he ?_ (.inr ⟨addr / 4096, withStackPage_frame (by decide), ?_, by simp [hlen]⟩)
  · rcases hl with ⟨-, h1, h2⟩ | ⟨h3, -⟩
    · exact .inl ⟨by simp [hlen], h1, fun h => by rw [← h2 h, hm]⟩
    · omega
  · have := ha.1
    omega

theorem Sound.push_full {p q b : Nat} {top : List Nat} (hs : Sound s h) (ha : PushOk h addr)
    (hon : OnPage s p b top) (hp : p ∈ h.pages) (h64 : s.space.frame? (STACK64 / 4096) = some q)
    (hq : q ≠ 0) (hlen : 2 ≤ h.pages.length) (hi : h.index = 1023) :
    ∃ s', stack_push AddrSpace.paging s addr = .ok s' ∧ Sound s' (h.push addr) := by
  have hp0 : p ≠ 0 := by have := hs.page p hp; omega
  have hpush : h.push addr = { h with pages := addr / 4096 :: h.pages, index := 0 } := by
    rw [History.push, if_neg (by omega), if_pos hi]
  obtain ⟨m, hok, hm⟩ := Pmm.push_full hon.frame hp0 h64 hq (hs.index.trans hi) ha.2.1
  have hf : m.frame? (STACK32 / 4096) = some (addr / 4096) := by
    rw [hm, AddrSpace.frame?_setFrame, withStackPage_frame (by decide)]
  have hf64 : m.frame? (STACK64 / 4096) = some q := by
    rw [hm, AddrSpace.frame?_setFrame, withStackPage_frame_ne windows_ne, h64]
  refine ⟨_, hok, hs.of_push ha ?_ (by rw [hpush])⟩
  rw [hpush]
  refine .mapped (addr / 4096) 1 [] h.entries ⟨hf, rfl, by simp, fun i h => nomatch h⟩
    (by simp) (Nat.le_refl 1) rfl (.inr ⟨?_, rfl, p, by simp [hp], ?_⟩) (.inr ⟨q, hf64, hq, ?_⟩)
  · simp only [List.length_cons]
    omega
  · show m.frames (addr / 4096) 0 = p * 4096
    rw [hm, AddrSpace.setFrame_frames_self, Function.update_self]
  · simp only [List.length_cons]
    omega

theorem Sound.push_room {p q b : Nat} {top old : List Nat} (hs : Sound s h) (ha : PushOk h addr)
    (hon : OnPage s p b top) (hp : p ∈ h.pages) (hb : b ≤ 1) (he : h.entries = top.reverse ++ old)
    (hl : Backlink s h p b old) (h64 : s.space.frame? (STACK64 / 4096) = some q)
    (hq : q ≠ 0) (hlen : 2 ≤ h.pages.length) (hi : h.index ≠ 1023) :
    ∃ s', stack_push AddrSpace.paging s addr = .ok s' ∧ Sound s' (h.push addr) := by
  have hp0 : p ≠ 0 := by have := hs.page p hp; omega
  have hidx := hon.index
  have hsi := hs.index
  have hlt : b + top.length < 1024 := by have := hon.le; omega
  have hpush : h.push addr = _ := History.push_entry hlen hi
  refine ⟨_, Pmm.push_room hon.frame hp0 h64 hq (by push_cast; exact hidx) hlt ha.2.1,
    hs.of_push ha ?_ (by rw [hpush, ← hsi])⟩
  rw [hpush]
  refine .mapped p b (top ++ [addr]) old ⟨hon.frame, ?_, ?_, fun i hi => ?_⟩ hp hb ?_ ?_
    (.inr ⟨q, h64, hq, hlen⟩)
  · simp only [List.length_append, List.length_singleton]
    omega
  · simp only [List.length_append, List.length_singleton]
    omega
  · simp only [AddrSpace.setFrame_frames_self]
    simp only [List.length_append, List.length_singleton] at hi
    rcases Nat.lt_or_ge i top.length with hlt | hge
    · rw [Function.update_of_ne (by omega), hon.slots i hlt, List.getElem_append_left hlt]
    · obtain rfl : i = top.length := by omega
      rw [Function.update_self, List.getElem_concat_length rfl]
  · simp [he]
  · -- the new slot is the backlink word only if `b` is zero
    have hword : b = 1 → Function.update (s.space.frames p) (b + top.length) addr 0 =
        s.space.frames p 0 := fun h => Function.update_of_ne (by omega) ..
    rcases hl with ⟨h1, h2, h3⟩ | ⟨h1, h2, q, hq, h3⟩
    · refine .inl ⟨h1, h2, fun h => ?_⟩
      rw [← h3 h, ← hword h]
      simp only [AddrSpace.setFrame_frames_self]
    · refine .inr ⟨h1, h2, q, hq, ?_⟩
      rw [← h3, ← hword h2]
      simp only [AddrSpace.setFrame_frames_self]

/-- **A push succeeds and keeps the stack sound.** -/
theorem Sound.push (hs : Sound s h) (ha : PushOk h addr) :
    ∃ s', stack_push AddrSpace.paging s addr = .ok s' ∧ Sound s' (h.push addr) := by
  cases hs.stores with
  | unmapped h32 h64 hi he hp => exact hs.push_unmapped ha h32 h64 hi he hp
  | mapped p b top old hon hp hb he hl h64 =>
    rcases h64 with ⟨h64, hlen, -⟩ | ⟨q, h64, hq, hlen⟩
    · exact hs.push_page64 ha hon hp hb he hl h64 hlen
    · by_cases hi : h.index = 1023
      · exact hs.push_full ha hon hp h64 hq hlen hi
      · exact hs.push_room ha hon hp hb he hl h64 hq hlen hi

/-! ## What a pop computes -/

variable (flags : PallocFlags)

/-- A pop from index 0 or above reads the word under the index. -/
theorem pop_slot {p k : Nat} (h32 : s.space.frame? (STACK32 / 4096) = some p)
    (hi : s.stack32_index = (k : Int)) (hk : k < 1024) :
    stack_pop32 AddrSpace.paging s flags =
      .ok (s.space.frames p k, { s with stack32_index := s.stack32_index - 1 }) := by
  unfold stack_pop32
  rw [if_neg (by omega), hi, freeAddrs_eq,
    AddrSpace.load_of_frame (f := p) (by rw [slot_page hk]; exact h32), slot_word hk]
  rfl

/-- A pop on an unmapped stack faults. -/
theorem pop_unmapped (h32 : s.space.frame? (STACK32 / 4096) = none) (hi : s.stack32_index = 0) :
    stack_pop32 AddrSpace.paging s flags = .error (.pageFault STACK32) := by
  unfold stack_pop32
  rw [if_neg (by omega), hi, show freeAddrs (0 - 1) = STACK32 from rfl]
  simp only [AddrSpace.paging, AddrSpace.load, h32]
  rfl

/-- A pop from below the first slot hands out the page the list is stored in. -/
theorem pop_below {p r : Nat} {s' : State AddrSpace} (h32 : s.space.frame? (STACK32 / 4096) = some p)
    (hi : s.stack32_index < 0) (h : stack_pop32 AddrSpace.paging s flags = .ok (r, s')) :
    r = p * 4096 := by
  unfold stack_pop32 at h
  rw [if_pos hi, getPhys_window stack32_aligned h32] at h
  obtain ⟨a, ha, h⟩ := bind_eq_ok.mp h
  cases ha
  rw [if_neg (by omega)] at h
  obtain ⟨b, -, h⟩ := bind_eq_ok.mp h
  obtain ⟨m, -, h⟩ := bind_eq_ok.mp h
  cases h
  rfl

/-- Without a backlink the page stays mapped, and its last slots count as entries. -/
theorem pop_below_first {p : Nat} (h32 : s.space.frame? (STACK32 / 4096) = some p)
    (hi : s.stack32_index < 0) (hw : s.space.frames p 0 = FAIL) :
    stack_pop32 AddrSpace.paging s flags = .ok (p * 4096, { s with stack32_index := 1022 }) := by
  unfold stack_pop32
  rw [if_pos hi, getPhys_window stack32_aligned h32]
  show (if p * 4096 = 0xFFFFFFFF then _ else _) = _
  rw [if_neg (by omega), AddrSpace.load_of_frame h32, stack32_word, hw]
  rfl

/-! ## When a pop keeps its promise -/

/-- The state after a pop from index 0 or above. -/
def State.popped (s : State AddrSpace) : State AddrSpace :=
  { s with stack32_index := s.stack32_index - 1 }

/-- A pop takes at most one entry away. -/
theorem History.pop_sublist (r : Nat) : (h.pop r).entries.Sublist h.entries := by
  unfold History.pop
  split
  · exact List.Sublist.refl _
  · exact List.erase_sublist

theorem Sound.of_pop {r : Nat} (hs : Sound s h) (hst : Stores s.popped (h.pop r)) :
    Sound s.popped (h.pop r) where
  stores := hst
  index := by
    show s.stack32_index - 1 = h.index - 1
    rw [hs.index]
  nodup := (((History.pop_sublist r).map _).append (List.Sublist.refl _)).nodup hs.nodup
  entry e he := hs.entry e ((History.pop_sublist r).subset he)
  page := hs.page

/-- A pop of the latest entry. -/
theorem Sound.pop_entry {p b x : Nat} {top old : List Nat} (hs : Sound s h)
    (hon : OnPage s p b (top ++ [x])) (hp : p ∈ h.pages) (hb : b ≤ 1)
    (he : h.entries = (top ++ [x]).reverse ++ old) (hl : Backlink s h p b old) (h64 : Page64 s h) :
    stack_pop32 AddrSpace.paging s flags = .ok (x, s.popped) ∧ PopSound h x ∧
      Sound s.popped (h.pop x) := by
  have hidx := hon.index
  have hle := hon.le
  simp only [List.length_append, List.length_singleton] at hidx hle
  have he' : h.entries = x :: (top.reverse ++ old) := by simpa using he
  have hx : x ∈ h.entries := by simp [he']
  have hne : x ≠ FAIL := Nat.ne_of_lt (hs.entry x hx).2
  have hword : s.space.frames p (b + top.length) = x := by
    rw [hon.slots top.length (by simp), List.getElem_concat_length rfl]
  have hpop := pop_slot flags hon.frame (k := b + top.length) (by push_cast; omega) (by omega)
  rw [hword] at hpop
  refine ⟨hpop, .inr ⟨hne, hx, hs.not_page hx⟩, hs.of_pop ?_⟩
  rw [History.pop, if_neg hne, he', List.erase_cons_head]
  refine .mapped p b top old ⟨hon.frame, ?_, by omega, fun i hi => ?_⟩ hp hb rfl hl ?_
  · show s.stack32_index - 1 + 1 = _
    omega
  · show s.space.frames p (b + i) = _
    rw [hon.slots i (by simp; omega), List.getElem_append_left hi]
  · rcases h64 with ⟨-, -, hemp⟩ | h64
    · rw [hemp] at he'
      cases he'
    · exact .inr h64

/-- A pop at the bottom of the first page: the failure value. -/
theorem Sound.pop_bottom {p : Nat} (hs : Sound s h) (hon : OnPage s p 1 []) (hp : p ∈ h.pages)
    (he : h.entries = []) (hlen : h.pages.length ≤ 2) (hw : s.space.frames p 0 = FAIL)
    (h64 : Page64 s h) :
    stack_pop32 AddrSpace.paging s flags = .ok (FAIL, s.popped) ∧ PopSound h FAIL ∧
      Sound s.popped (h.pop FAIL) := by
  have hidx := hon.index
  simp only [List.length_nil] at hidx
  have hpop := pop_slot flags hon.frame (k := 0) (by push_cast; omega) (by decide)
  rw [hw] at hpop
  refine ⟨hpop, .inl ⟨rfl, he⟩, hs.of_pop ?_⟩
  rw [History.pop, if_pos rfl]
  refine .mapped p 0 [] [] ⟨hon.frame, ?_, by simp, fun i h => nomatch h⟩ hp (by decide) he
    (.inl ⟨hlen, rfl, fun h => nomatch h⟩) h64
  show s.stack32_index - 1 + 1 = 0
  omega

/-- **A pop that is `PopOk` keeps its promise and keeps the stack sound.** -/
theorem Sound.pop (hs : Sound s h) (hp : PopOk h) :
    ∃ r, stack_pop32 AddrSpace.paging s flags = .ok (r, s.popped) ∧ PopSound h r ∧
      Sound s.popped (h.pop r) := by
  obtain ⟨hpages, hok⟩ := hp
  cases hs.stores with
  | unmapped _ _ _ _ hp => exact absurd hp hpages
  | mapped p b top old hon hp hb he hl h64 =>
    rcases List.eq_nil_or_concat top with rfl | ⟨top, x, rfl⟩
    · have hidx := hon.index
      rw [hs.index, List.length_nil] at hidx
      obtain rfl : b = 1 := by omega
      rcases hl with ⟨hlen, rfl, hw⟩ | ⟨hlen, -⟩
      · exact ⟨FAIL, hs.pop_bottom flags hon hp he hlen (hw rfl) h64⟩
      · omega
    · rw [List.concat_eq_append] at hon he
      exact ⟨x, hs.pop_entry flags hon hp hb he hl h64⟩

/-- A pop that is `PopOk`, whichever flags it was given. -/
theorem Sound.pop_eq {flags : PallocFlags} {r : Nat} {s' : State AddrSpace} (hs : Sound s h)
    (hp : PopOk h)
    (hpop : stack_pop32 AddrSpace.paging s flags = .ok (r, s')) :
    s' = s.popped ∧ PopSound h r ∧ Sound s.popped (h.pop r) := by
  obtain ⟨r', hpop', hr, hs'⟩ := hs.pop flags hp
  rw [hpop'] at hpop
  cases hpop
  exact ⟨rfl, hr, hs'⟩

/-- A pop that is not `PopOk` answers a list page, if anything. -/
theorem Sound.pop_page {r : Nat} {s' : State AddrSpace} (hs : Sound s h) (hp : ¬ PopOk h)
    (hpop : stack_pop32 AddrSpace.paging s flags = .ok (r, s')) : ∃ q ∈ h.pages, r = q * 4096 := by
  have hsi := hs.index
  cases hs.stores with
  | unmapped h32 _ hi =>
    rw [pop_unmapped flags h32 (hsi.trans hi)] at hpop
    cases hpop
  | mapped p b top old hon hp' hb he hl h64 =>
    have hpages : h.pages ≠ [] := List.ne_nil_of_mem hp'
    rcases Int.lt_trichotomy h.index 0 with hlt | heq | hgt
    · exact ⟨p, hp', pop_below flags hon.frame (by omega) hpop⟩
    · rw [pop_slot flags (k := 0) hon.frame (hsi.trans heq) (by decide)] at hpop
      cases hpop
      rcases hl with ⟨hlen, -⟩ | ⟨-, -, q, hq, hw⟩
      · exact absurd ⟨hpages, .inr ⟨heq, hlen⟩⟩ hp
      · exact ⟨q, hq, hw⟩
    · exact absurd ⟨hpages, .inl hgt⟩ hp

/-- A list page is no sound result. -/
theorem page_not_sound {q : Nat} (hq : q ∈ h.pages) : ¬ PopSound h (q * 4096) := by
  rintro (⟨hfail, -⟩ | ⟨-, -, hn⟩)
  · unfold FAIL at hfail
    omega
  · exact hn (by rwa [Nat.mul_div_cancel q (by decide)])

/-- A pop that keeps its promise is `PopOk`. -/
theorem Sound.popOk {r : Nat} {s' : State AddrSpace} (hs : Sound s h)
    (hpop : stack_pop32 AddrSpace.paging s flags = .ok (r, s')) (hr : PopSound h r) : PopOk h := by
  by_contra hp
  obtain ⟨q, hq, rfl⟩ := hs.pop_page flags hp hpop
  exact page_not_sound hq hr

end Condor.Pmm
