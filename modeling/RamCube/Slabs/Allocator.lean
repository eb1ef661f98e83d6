import RamCube.Lib.DList
import RamCube.Store.Items

/-! # The slab allocator (slabs.c)

The chunks of a class that are free are linked through the headers at their start. Memory is
a function from the address of a chunk to the part of its header that the allocator uses;
`sizeofItem_le_size` shows that the headers of two chunks do not overlap. -/
namespace RamCube

def POWER_SMALLEST : Nat := 1

def POWER_LARGEST : Nat := LARGEST_ID

def CHUNK_ALIGN_BYTES : Nat := 8

def ITEM_SLABBED : UInt8 := 4

/-- The calls of `malloc` and `realloc`, by number and size. What `malloc` grants in two
calls does not overlap. -/
structure Libc where
  malloc : Nat → Nat → Option Nat
  realloc : Nat → Nat → Bool
  apart : ∀ i j n m p q, i ≠ j → malloc i n = some p → malloc j m = some q → p + n ≤ q ∨ q + m ≤ p

/-- The settings that slabs.c reads, with the arguments of `slabs_init`. -/
structure SlabSettings where
  itemSizeMax : Nat
  chunkSize : Nat
  slabReassign : Bool
  limit : UInt64
  prealloc : Bool
  /-- `T_MEMD_INITIAL_MALLOC` -/
  initialMalloc : UInt64
  /-- `size <= settings.item_size_max / factor` -/
  fits : Nat → Bool
  /-- `size *= factor` -/
  times : Nat → Nat
  min_le : 1024 ≤ itemSizeMax
  max_le : itemSizeMax ≤ 1024 * 1024 * 128
  grows : ∀ size, size ≤ times size

structure ChunkHeader where
  next : Option Ptr
  prev : Option Ptr
  itFlags : UInt8
  slabsClsid : UInt8
deriving DecidableEq

def zeroHeader : ChunkHeader := ⟨none, none, 0, 0⟩

/-- `slabclass_t` -/
structure Slabclass where
  size : Nat
  perslab : Nat
  slots : Option Ptr
  slCurr : UInt32
  slabs : UInt32
  slabList : Nat → Nat
  listSize : UInt32
  requested : UInt64

def emptyClass (size perslab : Nat) : Slabclass where
  size := size
  perslab := perslab
  slots := none
  slCurr := 0
  slabs := 0
  slabList := fun _ => 0
  listSize := 0
  requested := 0

structure Slabs where
  slabclass : Nat → Slabclass
  memLimit : UInt64
  memMalloced : UInt64
  powerLargest : Nat
  memBase : Option Nat
  memCurrent : Nat
  memAvail : Nat
  mem : Ptr → ChunkHeader
  /-- how many calls of `malloc` and `realloc` were made -/
  calls : Nat

namespace Slabs

variable (libc : Libc) (cfg : SlabSettings) (s : Slabs)

def setClass (id : Nat) (p : Slabclass) : Slabs := { s with slabclass := Function.update s.slabclass id p }

def modify (it : Ptr) (f : ChunkHeader → ChunkHeader) : Slabs :=
  { s with mem := Function.update s.mem it (f (s.mem it)) }

/-- `if (node) node->prev = link` -/
def setPrev (node link : Option Ptr) : Slabs :=
  match node with
  | none => s
  | some it => s.modify it fun h => { h with prev := link }

/-- What is wanted to the next multiple of `CHUNK_ALIGN_BYTES`. -/
def aligned (size : Nat) : Nat :=
  if size % CHUNK_ALIGN_BYTES ≠ 0 then size + (CHUNK_ALIGN_BYTES - size % CHUNK_ALIGN_BYTES) else size

def growSlabList (id : Nat) : Slabs × Bool :=
  let p := s.slabclass id
  if p.slabs = p.listSize then
    let newSize := if p.listSize ≠ 0 then p.listSize * 2 else 16
    let granted := libc.realloc s.calls (newSize.toNat * 8)
    let s := { s with calls := s.calls + 1 }
    if granted then (s.setClass id { p with listSize := newSize }, true) else (s, false)
  else (s, true)

def memoryAllocate (size : Nat) : Slabs × Option Nat :=
  match s.memBase with
  | none => ({ s with calls := s.calls + 1 }, libc.malloc s.calls size)
  | some _ =>
    if s.memAvail < size then (s, none)
    else
      ({ s with
          memCurrent := s.memCurrent + aligned size
          memAvail := if aligned size < s.memAvail then s.memAvail - aligned size else 0 },
        some s.memCurrent)

/-- `none` where an assertion fails. -/
def doSlabsFree (ptr : Ptr) (size : UInt64) (id : Nat) : Option Slabs :=
  if (s.mem ptr).slabsClsid ≠ 0 ∨ id < POWER_SMALLEST ∨ s.powerLargest < id then none
  else
    let p := s.slabclass id
    let s := s.modify ptr fun h => { h with itFlags := h.itFlags ||| ITEM_SLABBED, prev := none, next := p.slots }
    let s := s.setPrev p.slots (some ptr)
    some (s.setClass id { p with
      slots := some ptr
      slCurr := p.slCurr + 1
      requested := p.requested - size })

/-- The loop of `split_slab_page_into_freelist`, with the number of chunks still to come. -/
def splitSlabPageIntoFreelist (id : Nat) : Nat → Ptr → Slabs → Option Slabs
  | 0, _, s => some s
  | n + 1, ptr, s => do
    let s ← s.doSlabsFree ptr 0 id
    splitSlabPageIntoFreelist id n (ptr + (s.slabclass id).size) s

/-- `memset(ptr, 0, len)` -/
def clear (ptr : Ptr) (len : Nat) : Slabs :=
  { s with mem := fun p => if ptr ≤ p ∧ p < ptr + len then zeroHeader else s.mem p }

/-- The length of a page. -/
def pageLen (id : Nat) : Nat :=
  if cfg.slabReassign then cfg.itemSizeMax else (s.slabclass id).size * (s.slabclass id).perslab

/-- `p->slab_list[p->slabs++] = ptr` and `mem_malloced += len` -/
def addPage (id ptr len : Nat) : Slabs :=
  let p := s.slabclass id
  { s.setClass id { p with
      slabList := Function.update p.slabList p.slabs.toNat ptr
      slabs := p.slabs + 1 } with
    memMalloced := s.memMalloced + UInt64.ofNat len }

def doSlabsNewslab (id : Nat) : Option (Slabs × Bool) :=
  let p := s.slabclass id
  let len := s.pageLen cfg id
  if s.memLimit ≠ 0 ∧ s.memLimit < s.memMalloced + UInt64.ofNat len ∧ 0 < p.slabs then some (s, false)
  else
    match s.growSlabList libc id with
    | (s, false) => some (s, false)
    | (s, true) =>
      match s.memoryAllocate libc len with
      | (s, none) => some (s, false)
      | (s, some ptr) => do
        let s ← (s.clear ptr len).splitSlabPageIntoFreelist id p.perslab ptr
        some (s.addPage id ptr len, true)

/-- `none` where the assertion fails that the first chunk of the free list is free. -/
def doSlabsAlloc (size : UInt64) (id : Nat) : Option (Slabs × Option Ptr) :=
  if id < POWER_SMALLEST ∨ s.powerLargest < id then some (s, none)
  else if (s.slabclass id).slCurr ≠ 0 ∧ ¬((s.slabclass id).slots.any fun it => (s.mem it).slabsClsid == 0) then none
  else do
    let (s, room) ← if (s.slabclass id).slCurr ≠ 0 then some (s, true) else s.doSlabsNewslab libc cfg id
    let p := s.slabclass id
    if room ∧ p.slCurr ≠ 0 then do
      let it ← p.slots
      let next := (s.mem it).next
      some ((s.setPrev next none).setClass id { p with
        slots := next
        slCurr := p.slCurr - 1
        requested := p.requested + size }, some it)
    else some (s, none)

end Slabs

/-! ## Starting up -/

namespace SlabSettings

variable (cfg : SlabSettings)

/-- The chunk sizes that the loop of `slabs_init` sets, with the number of classes that it
can still set. -/
def sizesFrom : Nat → Nat → List Nat
  | 0, _ => []
  | n + 1, size =>
    if cfg.fits size then Slabs.aligned size :: sizesFrom n (cfg.times (Slabs.aligned size)) else []

def classSizes : List Nat := cfg.sizesFrom (POWER_LARGEST - POWER_SMALLEST) (sizeofItem + cfg.chunkSize)

def powerLargest : Nat := POWER_SMALLEST + cfg.classSizes.length

def initClass (id : Nat) : Slabclass :=
  if id = cfg.powerLargest then emptyClass cfg.itemSizeMax 1
  else if POWER_SMALLEST ≤ id ∧ id < cfg.powerLargest then
    let size := cfg.classSizes.getD (id - POWER_SMALLEST) 0
    emptyClass size (cfg.itemSizeMax / size)
  else emptyClass 0 0

end SlabSettings

namespace Slabs

variable (libc : Libc) (cfg : SlabSettings)

/-- The loop of `slabs_preallocate`; `none` where a page cannot be had. -/
def slabsPreallocate (maxslabs : Nat) : Nat → Nat → Nat → Slabs → Option Slabs
  | 0, _, _, s => some s
  | n + 1, i, prealloc, s =>
    if maxslabs < prealloc + 1 then some s
    else do
      let (s, given) ← s.doSlabsNewslab libc cfg i
      if given then slabsPreallocate maxslabs n (i + 1) (prealloc + 1) s else none

/-- The allocator before it preallocates. -/
def setup : Slabs :=
  let base := if cfg.prealloc then libc.malloc 0 cfg.limit.toNat else none
  { slabclass := cfg.initClass
    memLimit := cfg.limit
    memMalloced := cfg.initialMalloc
    powerLargest := cfg.powerLargest
    memBase := base
    memCurrent := base.getD 0
    memAvail := if base.isSome then cfg.limit.toNat else 0
    mem := fun _ => zeroHeader
    calls := 1 }

def slabsInit : Option Slabs :=
  if cfg.prealloc then (setup libc cfg).slabsPreallocate libc cfg cfg.powerLargest (POWER_LARGEST + 1 - POWER_SMALLEST) POWER_SMALLEST 0
  else some (setup libc cfg)

end Slabs
end RamCube
