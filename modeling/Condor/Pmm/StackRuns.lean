import Condor.Pmm.FrameStack

/-!
# Runs of the frame stack

`StackRun C` are the runs of pushes and pops from an empty stack in which every
pop meets `C`. If every pop is `PopOk` the stack stays `Sound`, so each further
`PopOk` pop answers a frame pushed and not popped since that is no list page, or
fails on an empty stack, and draining the stack answers its entries once each
(`frame_stack_runs`).

The source tests the index before it decrements it. A pop at index 0 therefore
answers the backlink word, and the next one the list page itself
(`pop_hands_out_list_page`).
-/

namespace Condor.Pmm

open Lib

/-- Runs of the stack, with their history, whose pops all meet `C`. -/
inductive StackRun (C : History → Prop) : State AddrSpace → History → Prop
  | empty {s} (h32 : s.space.frame? (STACK32 / 4096) = none)
      (h64 : s.space.frame? (STACK64 / 4096) = none) (hi : s.stack32_index = 0) : StackRun C s .empty
  | push {s s' h addr} (hrun : StackRun C s h) (ha : PushOk h addr)
      (hpush : stack_push AddrSpace.paging s addr = .ok s') : StackRun C s' (h.push addr)
  | pop {s s' h flags r} (hrun : StackRun C s h) (hc : C h)
      (hpop : stack_pop32 AddrSpace.paging s flags = .ok (r, s')) : StackRun C s' (h.pop r)

/-- Popping until failure by pops that meet `C`, with the frames answered on the way. -/
inductive Drain (C : History → Prop) : State AddrSpace → History → List Nat → Prop
  | done {s s' h flags} (hc : C h)
      (hpop : stack_pop32 AddrSpace.paging s flags = .ok (FAIL, s')) : Drain C s h []
  | next {s s' h flags r rs} (hc : C h)
      (hpop : stack_pop32 AddrSpace.paging s flags = .ok (r, s')) (hr : r ≠ FAIL)
      (hrest : Drain C s' (h.pop r) rs) : Drain C s h (r :: rs)

/-- The first list page is still the top one, and no pop has run past its bottom. -/
def Drainable (h : History) : Prop :=
  h.pages ≠ [] ∧ h.pages.length ≤ 2 ∧ (h.entries.length : Int) = h.index

instance (h : History) : Decidable (Drainable h) := inferInstanceAs (Decidable (_ ∧ _ ∧ _))

variable {s s' : State AddrSpace} {h : History}

/-- The invariant of the runs whose pops are `PopOk`. -/
theorem StackRun.sound (hrun : StackRun PopOk s h) : Sound s h := by
  induction hrun with
  | empty h32 h64 hi => exact sound_empty h32 h64 hi
  | push _ ha hpush ih =>
    obtain ⟨t, ht, hs⟩ := ih.push ha
    rw [hpush] at ht
    cases ht
    exact hs
  | pop _ hc hpop ih =>
    obtain ⟨rfl, -, hs⟩ := ih.pop_eq hc hpop
    exact hs

/-! ## Draining -/

/-- With no entries left the index is at the bottom of the page. -/
theorem Sound.index_le (hs : Sound s h) (he : h.entries = []) : h.index ≤ 0 := by
  cases hs.stores with
  | unmapped _ _ hi => omega
  | mapped p b top old hon hp hb he' hl h64 =>
    rw [he] at he'
    have htop : top = [] := List.reverse_eq_nil_iff.mp (List.append_eq_nil_iff.mp he'.symm).1
    have hidx := hon.index
    rw [htop, List.length_nil, hs.index] at hidx
    omega

theorem History.length_pop {r : Nat} (hr : r ≠ FAIL) (hmem : r ∈ h.entries) :
    (h.pop r).entries.length + 1 = h.entries.length := by
  rw [History.pop, if_neg hr, List.length_erase_of_mem hmem]
  have := List.length_pos_of_mem hmem
  omega

/-- A pop that answers an entry leaves the stack as drainable as it was. -/
theorem drainable_pop {r : Nat} (hr : r ≠ FAIL) (hmem : r ∈ h.entries) :
    Drainable (h.pop r) ↔ Drainable h := by
  have hlen := History.length_pop hr hmem
  have hi : (h.pop r).index = h.index - 1 := rfl
  have hp : (h.pop r).pages = h.pages := rfl
  unfold Drainable
  rw [hi, hp]
  exact and_congr_right fun _ => and_congr_right fun _ => by omega

theorem Drainable.popOk (hd : Drainable h) : PopOk h := by
  obtain ⟨hpages, hlen, hi⟩ := hd
  rcases Nat.eq_zero_or_pos h.entries.length with h0 | hpos
  · exact ⟨hpages, .inr ⟨by omega, hlen⟩⟩
  · exact ⟨hpages, .inl (by omega)⟩

/-- A drain answers the entries, each once. -/
theorem Drain.perm {rs : List Nat} (hd : Drain PopOk s h rs) (hs : Sound s h) : rs.Perm h.entries := by
  induction hd with
  | done hc hpop =>
    obtain ⟨-, ⟨-, he⟩ | ⟨hne, -⟩, -⟩ := hs.pop_eq hc hpop
    · rw [he]
    · exact absurd rfl hne
  | next hc hpop hne _ ih =>
    obtain ⟨rfl, ⟨hfail, -⟩ | ⟨-, hmem, -⟩, hs'⟩ := hs.pop_eq hc hpop
    · exact absurd hfail hne
    · refine ((ih hs').cons _).trans ?_
      rw [History.pop, if_neg hne]
      exact (List.perm_cons_erase hmem).symm

/-- A drain ends at the bottom of the first page. -/
theorem Drain.drainable {rs : List Nat} (hd : Drain PopOk s h rs) (hs : Sound s h) : Drainable h := by
  induction hd with
  | done hc hpop =>
    obtain ⟨-, ⟨-, he⟩ | ⟨hne, -⟩, -⟩ := hs.pop_eq hc hpop
    · obtain ⟨hpages, hpos | ⟨hi, hlen⟩⟩ := hc
      · have := hs.index_le he
        omega
      · exact ⟨hpages, hlen, by rw [he, hi]; rfl⟩
    · exact absurd rfl hne
  | next hc hpop hne _ ih =>
    obtain ⟨rfl, ⟨hfail, -⟩ | ⟨-, hmem, -⟩, hs'⟩ := hs.pop_eq hc hpop
    · exact absurd hfail hne
    · exact (drainable_pop hne hmem).mp (ih hs')

/-- A drainable stack can be drained. -/
theorem Drainable.exists_drain (hd : Drainable h) (hs : Sound s h) : ∃ rs, Drain PopOk s h rs := by
  induction hn : h.entries.length generalizing s h with
  | zero =>
    obtain ⟨r, hpop, ⟨rfl, -⟩ | ⟨-, hmem, -⟩, -⟩ := hs.pop {} hd.popOk
    · exact ⟨[], .done hd.popOk hpop⟩
    · rw [List.length_eq_zero_iff.mp hn] at hmem
      cases hmem
  | succ n ih =>
    obtain ⟨r, hpop, ⟨-, he⟩ | ⟨hne, hmem, -⟩, hs'⟩ := hs.pop {} hd.popOk
    · rw [he] at hn
      cases hn
    · have hlen := History.length_pop hne hmem
      obtain ⟨rs, hrs⟩ := ih ((drainable_pop hne hmem).mpr hd) hs' (by omega)
      exact ⟨r :: rs, .next hd.popOk hpop hne hrs⟩

/-- The stack after its first push, of the frame that now stores the list. -/
theorem StackRun.exists_first (C : History → Prop) {addr : Nat} (ha : PushOk .empty addr) :
    ∃ s, StackRun C s ⟨[], [addr / 4096], 0⟩ ∧ s.stack32_index = 0 ∧
      s.space.frame? (STACK32 / 4096) = some (addr / 4096) ∧ s.space.frames (addr / 4096) 0 = FAIL := by
  have h0 : StackRun C ⟨initial_bitmaps, 0, false, ⟨fun _ => 0, fun _ _ => 0⟩⟩ .empty :=
    .empty rfl rfl rfl
  exact ⟨_, .push h0 ha (push_first rfl ha.2.1), rfl, withStackPage_frame (by decide),
    withStackPage_frames (by decide)⟩

/-- **Runs of the frame stack.** If every pop so far was `PopOk`, a pop keeps its promise exactly if
it is `PopOk` too; draining by such pops is possible exactly while the first list page is the top
one and was not run past, and answers every frame pushed and not popped since, except the list
pages, once. -/
theorem frame_stack_runs (hrun : StackRun PopOk s h) :
    (∀ flags, (∃ r s', stack_pop32 AddrSpace.paging s flags = .ok (r, s') ∧ PopSound h r) ↔ PopOk h) ∧
    ((∃ rs, Drain PopOk s h rs) ↔ Drainable h) ∧
    ∀ rs, Drain PopOk s h rs → rs.Perm h.entries := by
  have hs := hrun.sound
  refine ⟨fun flags => ⟨?_, fun hp => ?_⟩, ⟨?_, fun hd => hd.exists_drain hs⟩, fun rs hd => hd.perm hs⟩
  · rintro ⟨r, s', hpop, hr⟩
    exact hs.popOk flags hpop hr
  · obtain ⟨r, hpop, hr, -⟩ := hs.pop flags hp
    exact ⟨r, _, hpop, hr⟩
  · rintro ⟨rs, hd⟩
    exact hd.drainable hs

/-- Six frames are pushed, the first two of which store the list, with a pop before the last one. The drain
answers the three that are left. -/
theorem frame_stack_runs_six : ∃ s h, StackRun PopOk s h ∧ h.entries = [0x01005000, 0x01003000, 0x01002000] ∧
    h.pages = [0x1001, 0x1000] ∧ (∃ r s', stack_pop32 AddrSpace.paging s {} = .ok (r, s') ∧ PopSound h r) ∧
    ∃ rs, Drain PopOk s h rs ∧ rs.Perm [0x01005000, 0x01003000, 0x01002000] := by
  let s₀ : State AddrSpace := ⟨initial_bitmaps, 0, false, ⟨fun _ => 0, fun _ _ => 0⟩⟩
  have hcalls : (do
      let a ← stack_push AddrSpace.paging s₀ 0x01000000
      let b ← stack_push AddrSpace.paging a 0x01001000
      let c ← stack_push AddrSpace.paging b 0x01002000
      let d ← stack_push AddrSpace.paging c 0x01003000
      let e ← stack_push AddrSpace.paging d 0x01004000
      let f ← stack_pop32 AddrSpace.paging e {}
      let _ ← stack_push AddrSpace.paging f.2 0x01005000
      pure f.1).toOption = some 0x01004000 := by decide +kernel
  obtain ⟨a, ha, hcalls⟩ := bind_toOption_eq_some.mp hcalls
  obtain ⟨b, hb, hcalls⟩ := bind_toOption_eq_some.mp hcalls
  obtain ⟨c, hc, hcalls⟩ := bind_toOption_eq_some.mp hcalls
  obtain ⟨d, hd, hcalls⟩ := bind_toOption_eq_some.mp hcalls
  obtain ⟨e, he, hcalls⟩ := bind_toOption_eq_some.mp hcalls
  obtain ⟨⟨r, f⟩, hf, hcalls⟩ := bind_toOption_eq_some.mp hcalls
  obtain ⟨g, hg, hcalls⟩ := bind_toOption_eq_some.mp hcalls
  cases Option.some.inj hcalls
  have hrun0 : StackRun PopOk s₀ .empty := .empty rfl rfl rfl
  have hrun2 := (hrun0.push (by decide) ha).push (by decide) hb
  have hrun5 := ((hrun2.push (by decide) hc).push (by decide) hd).push (by decide) he
  have hrun := (hrun5.pop (by decide) hf).push (by decide) hg
  obtain ⟨hpop, hdrain, hperm⟩ := frame_stack_runs hrun
  obtain ⟨rs, hrs⟩ := hdrain.mpr (by decide)
  exact ⟨g, _, hrun, rfl, rfl, (hpop {}).mpr (by decide), rs, hrs, hperm rs hrs⟩

/-- The pop after that one answers the frame that stores the list. -/
theorem pop_hands_out_list_page : ∃ s s', StackRun (fun _ => True) s ⟨[], [0x1000], -1⟩ ∧
    stack_pop32 AddrSpace.paging s {} = .ok (0x01000000, s') ∧
    ¬ PopSound ⟨[], [0x1000], -1⟩ 0x01000000 := by
  obtain ⟨s, hrun, hi, h32, hw⟩ :=
    StackRun.exists_first (fun _ => True) (show PushOk .empty 0x01000000 by decide)
  have hpop := StackRun.pop hrun trivial (pop_slot {} (k := 0) h32 hi (by decide))
  have hneg : s.popped.stack32_index < 0 := by
    show s.stack32_index - 1 < 0
    omega
  have hbelow := pop_below_first {} (s := s.popped) h32 hneg hw
  rw [History.pop, if_pos hw] at hpop
  exact ⟨_, _, hpop, hbelow, by decide⟩

end Condor.Pmm
