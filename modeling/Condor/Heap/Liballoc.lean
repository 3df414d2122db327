import Condor.Hal.Interrupts
import Condor.Lib.Prog
import Condor.Lib.Records
import Mathlib.Data.Fin.VecNotation
import Mathlib.Tactic.FinCases

/-!
# The allocator, `liballoc.c`

A major is a chunk of pages that the hooks gave, with a header of its own; in it lie
minors, each a header with the memory that one call of `kmalloc` got. Both kinds of
header are records in the byte memory that the payloads lie in as well. The hooks may
change the bytes of the pages that they map or unmap.

`ALIGN` moves a pointer up to the next multiple of 16 and leaves in the byte 16 below
it how far that was; `UNALIGN` moves it back.
-/

namespace Condor.Heap.Liballoc

open Lib Lib.Prog

abbrev Word := BitVec 32

def NULL : Word := 0#32
def ALIGNMENT : Word := 16#32
def ALIGN_INFO : Word := 16#32
def LIBALLOC_MAGIC : Word := 0xC001C0DE#32
def LIBALLOC_DEAD : Word := 0xDEADDEAD#32
def l_pageSize : Word := 4096#32
def l_pageCount : Word := 16#32

/-- `struct liballoc_major`. -/
structure Major where
  prev : Word
  next : Word
  pages : Word
  size : Word
  usage : Word
  first : Word
  deriving DecidableEq, Repr

/-- `struct liballoc_minor`. -/
structure Minor where
  prev : Word
  next : Word
  block : Word
  magic : Word
  size : Word
  req_size : Word
  deriving DecidableEq, Repr

def sizeof_major : Word := 24#32
def sizeof_minor : Word := 24#32

theorem six_eq {α : Type} (v : Fin 6 → α) : ![v 0, v 1, v 2, v 3, v 4, v 5] = v := by
  funext i
  fin_cases i <;> rfl

def Major.codec : Codec Major :=
  (words 6).mapped (fun r => ![r.prev, r.next, r.pages, r.size, r.usage, r.first])
    (fun v => ⟨v 0, v 1, v 2, v 3, v 4, v 5⟩) (fun _ => rfl) six_eq

def Minor.codec : Codec Minor :=
  (words 6).mapped (fun r => ![r.prev, r.next, r.block, r.magic, r.size, r.req_size])
    (fun v => ⟨v 0, v 1, v 2, v 3, v 4, v 5⟩) (fun _ => rfl) six_eq

/-- `liballoc_alloc` and `liballoc_free`, on a state of their own and the memory. They may stop. -/
structure Hooks (ε σ : Type) where
  liballoc_alloc : Word → σ × Memory 32 → Except ε (Word × σ × Memory 32)
  liballoc_free : Word → Word → σ × Memory 32 → Except ε (Word × σ × Memory 32)

structure State (σ : Type) where
  memory : Memory 32
  l_memRoot : Word
  l_bestBet : Word
  l_allocated : BitVec 64
  l_inuse : BitVec 64
  l_warningCount : BitVec 64
  l_errorCount : BitVec 64
  l_possibleOverruns : BitVec 64
  flags : Hal.Flags
  pages : σ

/-- The allocator before its first call. -/
def State.fresh {σ : Type} (memory : Memory 32) (flags : Hal.Flags) (pages : σ) : State σ :=
  ⟨memory, NULL, NULL, 0, 0, 0, 0, 0, flags, pages⟩

/-- A hook has stopped, or a loop has not ended. -/
inductive Stop (ε : Type) where
  | hook (e : ε)
  | pending
  deriving DecidableEq, Repr

section
variable {ε σ : Type}

/-- The error that a hook stopped with. -/
def IsHook : Stop ε → Prop
  | .hook _ => True
  | .pending => False

abbrev Code (ε σ α : Type) := Prog (Stop ε) (State σ) α

/-! ## Statements -/

/-- `if (c) x;` -/
def whenever (c : Prop) [Decidable c] (x : Code ε σ Unit) : Code ε σ Unit := if c then x else pure ()

/-- A loop over pointers of which none comes more often than there are addresses. -/
def pointer_loop {α β : Type} (turn : α → Code ε σ (α ⊕ β)) (a : α) : Code ε σ β :=
  iterate turn .pending (2 ^ 32) a

def major (maj : Word) : Code ε σ Major := ⟨fun s => (.ok (Major.codec.read s.memory maj), s)⟩

def minor (min : Word) : Code ε σ Minor := ⟨fun s => (.ok (Minor.codec.read s.memory min), s)⟩

/-- Assignments to members of `*maj`. -/
def set_major (maj : Word) (f : Major → Major) : Code ε σ Unit :=
  modify fun s => { s with memory := Major.codec.write s.memory maj (f (Major.codec.read s.memory maj)) }

/-- Assignments to members of `*min`. -/
def set_minor (min : Word) (f : Minor → Minor) : Code ε σ Unit :=
  modify fun s => { s with memory := Minor.codec.write s.memory min (f (Minor.codec.read s.memory min)) }

def load (a : Word) : Code ε σ (BitVec 8) := ⟨fun s => (.ok (s.memory a), s)⟩

def store (a : Word) (c : BitVec 8) : Code ε σ Unit :=
  modify fun s => { s with memory := Function.update s.memory a c }

def liballoc_lock : Code ε σ Unit := modify fun s => { s with flags := s.flags.hal_disableInterrupts }

def liballoc_unlock : Code ε σ Unit := modify fun s => { s with flags := s.flags.hal_restoreInterrupts }

def warning : Code ε σ Unit := modify fun s => { s with l_warningCount := s.l_warningCount + 1 }

/-- `(diff == 0 ? 0 : ALIGNMENT - diff)` for the address behind the alignment information. -/
def align_diff (ptr : Word) : Word :=
  let diff := (ptr + ALIGN_INFO) &&& (ALIGNMENT - 1)
  if diff ≠ 0 then ALIGNMENT - diff else diff

/-- Where `ALIGN` moves a pointer. -/
def aligned (ptr : Word) : Word := ptr + ALIGN_INFO + align_diff ptr

/-- What `ALIGN` leaves in front of the pointer. -/
def align_mark (ptr : Word) : BitVec 8 := (align_diff ptr + ALIGN_INFO).setWidth 8

def ALIGN (ptr : Word) : Code ε σ Word := do
  store (aligned ptr - ALIGN_INFO) (align_mark ptr)
  pure (aligned ptr)

/-- A `char` is signed. -/
def UNALIGN (ptr : Word) : Code ε σ Word := do
  let info ← load (ptr - ALIGN_INFO)
  let diff := info.signExtend 32
  pure (if diff < ALIGNMENT + ALIGN_INFO then ptr - diff else ptr)

/-! ## Copying -/

/-- A turn of `for (i = 0; i < n; i++) ((char*)s)[i] = c;` -/
def memset_turn (s : Word) (c : BitVec 8) (n i : Word) : Code ε σ (Word ⊕ Unit) :=
  if i < n then do
    store (s + i) c
    pure (.inl (i + 1))
  else pure (.inr ())

def liballoc_memset (s : Word) (c : BitVec 8) (n : Word) : Code ε σ Word := do
  pointer_loop (memset_turn s c n) 0
  pure s

/-- The locals of `liballoc_memcpy`: both pointers and what is left. -/
structure Copy where
  dest : Word
  src : Word
  n : Word

def Copy.ahead (c : Copy) (k : Word) : Copy := ⟨c.dest + k, c.src + k, c.n - k⟩

/-- A turn of the loop over words. A word goes through a register as a whole. -/
def memcpy_words (c : Copy) : Code ε σ (Copy ⊕ Copy) :=
  if 4 ≤ c.n then do
    modify fun s => { s with memory := (words 1).write s.memory c.dest ((words 1).read s.memory c.src) }
    pure (.inl (c.ahead 4))
  else pure (.inr c)

/-- A turn of the loop over the bytes that are left. -/
def memcpy_bytes (c : Copy) : Code ε σ (Copy ⊕ Unit) :=
  if 0 < c.n then do
    let b ← load c.src
    store c.dest b
    pure (.inl (c.ahead 1))
  else pure (.inr ())

def liballoc_memcpy (s1 s2 n : Word) : Code ε σ Word := do
  let rest ← pointer_loop memcpy_words ⟨s1, s2, n⟩
  pointer_loop memcpy_bytes rest
  pure s1

/-! ## `kmalloc` -/

variable (H : Hooks ε σ)

def call_alloc (n : Word) : Code ε σ Word :=
  ⟨fun s =>
    match H.liballoc_alloc n (s.pages, s.memory) with
    | .ok (a, pages, memory) => (.ok a, { s with pages := pages, memory := memory })
    | .error e => (.error (.hook e), s)⟩

def call_free (maj n : Word) : Code ε σ Unit :=
  ⟨fun s =>
    match H.liballoc_free maj n (s.pages, s.memory) with
    | .ok (_, pages, memory) => (.ok (), { s with pages := pages, memory := memory })
    | .error e => (.error (.hook e), s)⟩

/-- How many pages `st` bytes take. -/
def whole_pages (st : Word) : Word := if st % l_pageSize = 0 then st / l_pageSize else st / l_pageSize + 1

/-- The pages that a new major has for `size` bytes. -/
def page_count (size : Word) : Word :=
  let st := whole_pages (size + sizeof_major + sizeof_minor)
  if st < l_pageCount then l_pageCount else st

def allocate_new_page (size : Word) : Code ε σ Word := do
  let maj ← call_alloc H (page_count size)
  if maj = NULL then do
    warning
    pure NULL
  else do
    set_major maj fun _ => ⟨NULL, NULL, page_count size, page_count size * l_pageSize, sizeof_major, NULL⟩
    modify fun s => { s with l_allocated := s.l_allocated + (page_count size * l_pageSize).setWidth 64 }
    pure maj

/-- The locals of the search. -/
structure Walk where
  maj : Word
  startedBet : Bool
  bestSize : BitVec 64

/-- `bestSize < diff`: this one has more memory than the best bet. -/
def remember (w : Walk) (diff : Word) : Code ε σ Walk :=
  if w.bestSize < diff.setWidth 64 then do
    modify fun s => { s with l_bestBet := w.maj }
    pure { w with bestSize := diff.setWidth 64 }
  else pure w

/-- `maj->next = allocate_new_page(size)`, and the link back. -/
def append_major (maj size : Word) : Code ε σ Word := do
  let page ← allocate_new_page H size
  set_major maj fun r => { r with next := page }
  whenever (page ≠ NULL) (set_major page fun r => { r with prev := maj })
  pure page

/-- What the cases that find space end with. -/
def take (maj min size : Word) : Code ε σ Word := do
  set_major maj fun r => { r with usage := r.usage + (size + sizeof_minor) }
  modify fun s => { s with l_inuse := s.l_inuse + size.setWidth 64 }
  ALIGN (min + sizeof_minor)

/-- CASE 2: it is a brand new block. -/
def place_only (maj req_size size : Word) : Code ε σ Word := do
  set_major maj fun r => { r with first := maj + sizeof_major }
  set_minor (maj + sizeof_major) fun _ => ⟨NULL, NULL, maj, LIBALLOC_MAGIC, size, req_size⟩
  take maj (maj + sizeof_major) size

/-- CASE 3: enough space at the start of the block. -/
def place_first (maj first req_size size : Word) : Code ε σ Word := do
  set_minor first fun r => { r with prev := maj + sizeof_major }
  set_minor (maj + sizeof_major) fun r => { r with next := first }
  set_major maj fun r => { r with first := maj + sizeof_major }
  set_minor (maj + sizeof_major) fun r =>
    { r with magic := LIBALLOC_MAGIC, prev := NULL, block := maj, size := size, req_size := req_size }
  take maj (maj + sizeof_major) size

/-- CASE 4.1: space between the last minor and the end. -/
def place_last (maj min new req_size size : Word) : Code ε σ Word := do
  set_minor min fun r => { r with next := new }
  set_minor new fun _ => ⟨min, NULL, maj, LIBALLOC_MAGIC, size, req_size⟩
  take maj new size

/-- CASE 4.2: space between two minors. -/
def place_between (maj min next new req_size size : Word) : Code ε σ Word := do
  set_minor new fun _ => ⟨min, next, maj, LIBALLOC_MAGIC, size, req_size⟩
  set_minor next fun r => { r with prev := new }
  set_minor min fun r => { r with next := new }
  take maj new size

/-- CASE 4: a turn of the loop over the minors. -/
def minor_turn (maj req_size size min : Word) : Code ε σ (Word ⊕ Option Word) :=
  if min = NULL then pure (.inr none)
  else do
    let r ← minor min
    let m ← major maj
    if r.next = NULL then
      if size + sizeof_minor ≤ maj + m.size - min - sizeof_minor - r.size then do
        let p ← place_last maj min (min + sizeof_minor + r.size) req_size size
        pure (.inr (some p))
      else pure (.inl r.next)
    else if size + sizeof_minor ≤ r.next - min - sizeof_minor - r.size then do
      let p ← place_between maj min r.next (min + sizeof_minor + r.size) req_size size
      pure (.inr (some p))
    else pure (.inl r.next)

/-- Starting over at the root. -/
def restart (w : Walk) : Code ε σ (Walk ⊕ Word) := do
  let s ← get
  pure (.inl { w with maj := s.l_memRoot, startedBet := false })

/-- CASE 5: the block is full, go on with the next one. -/
def next_major (size : Word) (w : Walk) : Code ε σ (Walk ⊕ Word) := do
  let m ← major w.maj
  if m.next = NULL then
    if w.startedBet then restart w
    else do
      let page ← append_major H w.maj size
      if page = NULL then pure (.inr NULL) else pure (.inl { w with maj := page })
  else pure (.inl { w with maj := m.next })

/-- CASES 2 to 5. -/
def in_major (req_size size : Word) (w : Walk) : Code ε σ (Walk ⊕ Word) := do
  let m ← major w.maj
  if m.first = NULL then do
    let p ← place_only w.maj req_size size
    pure (.inr p)
  else if size + sizeof_minor ≤ m.first - w.maj - sizeof_major then do
    let p ← place_first w.maj m.first req_size size
    pure (.inr p)
  else do
    let found ← pointer_loop (minor_turn w.maj req_size size) m.first
    match found with
    | some p => pure (.inr p)
    | none => next_major H size w

/-- CASE 1: there is not enough space in this major block. -/
def hop (req_size size : Word) (w : Walk) : Code ε σ (Walk ⊕ Word) := do
  let m ← major w.maj
  if m.next ≠ NULL then pure (.inl { w with maj := m.next })
  else if w.startedBet then restart w
  else do
    let page ← append_major H w.maj size
    if page = NULL then pure (.inr NULL) else in_major H req_size size { w with maj := page }

/-- A turn of the loop over the majors. -/
def major_turn (req_size size : Word) (w : Walk) : Code ε σ (Walk ⊕ Word) :=
  if w.maj = NULL then pure (.inr NULL)
  else do
    let m ← major w.maj
    let w ← remember w (m.size - m.usage)
    if m.size - m.usage < size + sizeof_minor then hop H req_size size w else in_major H req_size size w

/-- Start at the best bet, if it has the space. -/
def start_walk (size : Word) : Code ε σ Walk := do
  let s ← get
  if s.l_bestBet = NULL then pure ⟨s.l_memRoot, false, 0⟩
  else do
    let best ← major s.l_bestBet
    let bestSize := (best.size - best.usage).setWidth 64
    if (size + sizeof_minor).setWidth 64 < bestSize then pure ⟨s.l_bestBet, true, bestSize⟩
    else pure ⟨s.l_memRoot, false, bestSize⟩

/-- The first major, on the first call. -/
def ensure_root (size : Word) : Code ε σ Bool := do
  let s ← get
  if s.l_memRoot = NULL then do
    let page ← allocate_new_page H size
    modify fun s => { s with l_memRoot := page }
    pure (page ≠ NULL)
  else pure true

def search (req_size size : Word) : Code ε σ Word := do
  let w ← start_walk size
  pointer_loop (major_turn H req_size size) w

/-- The request with what aligning it takes. -/
def padded (req_size : Word) : Word := req_size + (ALIGNMENT + ALIGN_INFO)

/-- `kmalloc` for a request whose padded size is not 0. -/
def kmalloc_sized (req_size : Word) : Code ε σ Word := do
  liballoc_lock
  let ready ← ensure_root H (padded req_size)
  if ready then do
    let p ← search H req_size (padded req_size)
    liballoc_unlock
    pure p
  else do
    liballoc_unlock
    pure NULL

def kmalloc (req_size : Word) : Code ε σ Word :=
  if padded req_size = 0 then do
    liballoc_lock
    warning
    liballoc_unlock
    kmalloc_sized H 1
  else kmalloc_sized H req_size

/-! ## `kfree`, `kcalloc`, `krealloc` -/

/-- The low bytes of the magic number are in place. -/
def overrun (magic : Word) : Bool :=
  magic &&& 0xFFFFFF = LIBALLOC_MAGIC &&& 0xFFFFFF || magic &&& 0xFFFF = LIBALLOC_MAGIC &&& 0xFFFF ||
    magic &&& 0xFF = LIBALLOC_MAGIC &&& 0xFF

/-- A pointer with a wrong magic number in front of it: being lied to. -/
def lied (magic : Word) : Code ε σ Unit := do
  modify fun s => { s with l_errorCount := s.l_errorCount + 1 }
  whenever (overrun magic) (modify fun s => { s with l_possibleOverruns := s.l_possibleOverruns + 1 })

/-- Taking a minor out of its major. -/
def unlink_minor (min : Word) (r : Minor) : Code ε σ Unit := do
  modify fun s => { s with l_inuse := s.l_inuse - r.size.setWidth 64 }
  set_major r.block fun m => { m with usage := m.usage - (r.size + sizeof_minor) }
  set_minor min fun r => { r with magic := LIBALLOC_DEAD }
  whenever (r.next ≠ NULL) (set_minor r.next fun n => { n with prev := r.prev })
  whenever (r.prev ≠ NULL) (set_minor r.prev fun p => { p with next := r.next })
  whenever (r.prev = NULL) (set_major r.block fun m => { m with first := r.next })

/-- Taking a major out of the list. -/
def unlink_major (maj : Word) (m : Major) : Code ε σ Unit := do
  modify fun s => { s with l_memRoot := if s.l_memRoot = maj then m.next else s.l_memRoot }
  modify fun s => { s with l_bestBet := if s.l_bestBet = maj then NULL else s.l_bestBet }
  whenever (m.prev ≠ NULL) (set_major m.prev fun p => { p with next := m.next })
  whenever (m.next ≠ NULL) (set_major m.next fun n => { n with prev := m.prev })
  modify fun s => { s with l_allocated := s.l_allocated - m.size.setWidth 64 }

/-- The block is completely unused. -/
def release_major (maj : Word) (m : Major) : Code ε σ Unit := do
  unlink_major maj m
  call_free H maj m.pages

/-- The sizes are compared as `int`. -/
def bet_on (maj : Word) (m : Major) : Code ε σ Unit := do
  let s ← get
  whenever (s.l_bestBet ≠ NULL) (do
    let best ← major s.l_bestBet
    whenever ((best.size - best.usage).toInt < (m.size - m.usage).toInt)
      (modify fun s => { s with l_bestBet := maj }))

/-- What `kfree` does with a minor. -/
def release (min : Word) (r : Minor) : Code ε σ Unit := do
  unlink_minor min r
  let m ← major r.block
  if m.first = NULL then release_major H r.block m else bet_on r.block m

def kfree (ptr : Word) : Code ε σ Unit :=
  if ptr = NULL then warning
  else do
    let ptr ← UNALIGN ptr
    liballoc_lock
    let r ← minor (ptr - sizeof_minor)
    if r.magic ≠ LIBALLOC_MAGIC then lied r.magic else release H (ptr - sizeof_minor) r
    liballoc_unlock

/-- `real_size` is an `int`, of the same bits. -/
def kcalloc (nobj size : Word) : Code ε σ Word := do
  let p ← kmalloc H (nobj * size)
  let _ ← liballoc_memset p 0 (nobj * size)
  pure p

/-- Reallocating to a block bigger than the old one. -/
def move_to_new (p size real_size : Word) : Code ε σ Word := do
  let ptr ← kmalloc H size
  let _ ← liballoc_memcpy ptr p real_size
  kfree H p
  pure ptr

def krealloc (p size : Word) : Code ε σ Word :=
  if size = 0 then do
    kfree H p
    pure NULL
  else if p = NULL then kmalloc H size
  else do
    let ptr ← UNALIGN p
    liballoc_lock
    let r ← minor (ptr - sizeof_minor)
    if r.magic ≠ LIBALLOC_MAGIC then do
      lied r.magic
      liballoc_unlock
      pure NULL
    else if size ≤ r.req_size then do
      set_minor (ptr - sizeof_minor) fun r => { r with req_size := size }
      liballoc_unlock
      pure p
    else do
      liballoc_unlock
      move_to_new H p size r.req_size

end

end Condor.Heap.Liballoc
