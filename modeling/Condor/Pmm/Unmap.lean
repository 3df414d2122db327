import Condor.Pmm.Steps

/-!
# Mappings that the physical memory manager changes

`vmm_unmap_address` gives the frame of the page it unmaps back to the manager,
which may turn it into a list page. Apart from the page asked for, the manager
only ever changes the mappings of its own windows, `stack32` and `stack64`.
-/

namespace Condor.Pmm

open Lib

/-- Unmap a page and free its frame. -/
def vmm_unmap_address {σ : Type} (P : Paging σ) (s : State σ) (laddr : Nat) :
    Except Stop (State σ) := do
  let r ← P.sumap_page s.space laddr
  pfree P { s with space := r.2 } r.1 1

/-- The page is not one of the windows of the frame stack. -/
def Outside (page : Nat) : Prop := page ≠ STACK32 / 4096 ∧ page ≠ STACK64 / 4096

variable {s s' : State AddrSpace} {page : Nat}

theorem map_stack_page_frame {m m' : AddrSpace} {laddr addr flags : Nat}
    (h : map_stack_page AddrSpace.paging m laddr addr flags = .ok m') (hp : page ≠ laddr / 4096) :
    m'.frame? page = m.frame? page := by
  unfold map_stack_page at h
  obtain ⟨⟨r, m1⟩, h1, h⟩ := bind_eq_ok.mp h
  rw [AddrSpace.frame?_memset h, AddrSpace.frame?_map h1 hp]

theorem stack_push_frame {addr : Nat} (h : stack_push AddrSpace.paging s addr = .ok s')
    (hp : Outside page) : s'.space.frame? page = s.space.frame? page := by
  cases stack_push_cases h with
  | window hpage hm =>
    obtain rfl | rfl := hpage
    · exact map_stack_page_frame hm hp.1
    · exact map_stack_page_frame hm hp.2
  | page hm hm' => exact (AddrSpace.frame?_store hm').trans (map_stack_page_frame hm hp.1)
  | slot _ hm => exact AddrSpace.frame?_store hm

theorem stack_pop32_frame {flags : PallocFlags} {r : Nat}
    (h : stack_pop32 AddrSpace.paging s flags = .ok (r, s')) (hp : Outside page) :
    s'.space.frame? page = s.space.frame? page := by
  cases stack_pop32_cases h with
  | fail => rfl
  | page hm => exact AddrSpace.frame?_map hm hp.1
  | slot => rfl

theorem pmalloc_frame {r : Nat} (h : pmalloc AddrSpace.paging s = .ok (r, s')) (hp : Outside page) :
    s'.space.frame? page = s.space.frame? page := by
  obtain hpop | ⟨frame, -, rfl⟩ := kpmalloc_cases h
  · exact stack_pop32_frame hpop hp
  · rfl

theorem pfree_frame {base num : Nat} (h : pfree AddrSpace.paging s base num = .ok s')
    (hp : Outside page) : s'.space.frame? page = s.space.frame? page := by
  obtain rfl | hpush | ⟨-, rfl⟩ := pfree_cases h
  · rfl
  · exact stack_push_frame hpush hp
  · rfl

/-- Unmapping a page changes the mapping of that page and of the windows only. -/
theorem vmm_unmap_address_frame {laddr : Nat}
    (h : vmm_unmap_address AddrSpace.paging s laddr = .ok s') (hp : Outside page)
    (hne : page ≠ laddr / 4096) : s'.space.frame? page = s.space.frame? page := by
  unfold vmm_unmap_address at h
  obtain ⟨⟨r, m⟩, hr, h⟩ := bind_eq_ok.mp h
  rw [pfree_frame h hp]
  exact AddrSpace.frame?_sumap hr hne

end Condor.Pmm
