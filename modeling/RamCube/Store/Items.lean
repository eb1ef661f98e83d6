import RamCube.Lib.Bytes
import RamCube.Lib.DList
import RamCube.Store.Assoc

/-! # Items: allocation, the LRU queues and the item table (items.c)

Memory is a function from the address of a chunk to the item header at its
start, with the bytes from `ITEM_key` on kept as they lie in memory: a chunk
that is handed out again still holds what was written before. The free list of
a slab class is kept as a list of chunks. Reference counts are counted modulo
`refMod`, the `2 ^ 16` of an `unsigned short` or 0, which leaves them unbounded. -/
namespace RamCube

abbrev Ptr := Nat

def ITEM_UPDATE_INTERVAL : UInt32 := 60

def TAIL_REPAIR_TIME : UInt32 := 3 * 3600

/-- `POWER_LARGEST`, the number of rows of `heads`, `tails` and `sizes`. -/
abbrev LARGEST_ID : Nat := 200

instance : NeZero LARGEST_ID := ⟨by decide⟩

/-- A class of chunks; 0 is no class. -/
abbrev SlabId := Fin LARGEST_ID

structure Item where
  next : Option Ptr
  prev : Option Ptr
  time : UInt32
  exptime : UInt32
  nbytes : Nat
  refcount : Nat
  nsuffix : Nat
  linked : Bool
  hasCas : Bool
  slabbed : Bool
  fetched : Bool
  slabsClsid : SlabId
  nkey : Nat
  cas : UInt64
  bytes : Nat → UInt8

/-- A chunk of a new page: zeroed memory on a free list. -/
def emptyItem : Item where
  next := none
  prev := none
  time := 0
  exptime := 0
  nbytes := 0
  refcount := 0
  nsuffix := 0
  linked := false
  hasCas := false
  slabbed := true
  fetched := false
  slabsClsid := 0
  nkey := 0
  cas := 0
  bytes := fun _ => 0

def itemKey (it : Item) : Bytes := slice it.bytes 0 it.nkey

def itemSuffix (it : Item) : Bytes := slice it.bytes (it.nkey + 1) it.nsuffix

/-- The offset of `ITEM_data` from `ITEM_key`. -/
def itemDataOff (it : Item) : Nat := it.nkey + 1 + it.nsuffix

def itemData (it : Item) : Bytes := slice it.bytes (itemDataOff it) it.nbytes

def itemGetCas (it : Item) : UInt64 := if it.hasCas then it.cas else 0

def itemSetCas (it : Item) (cas : UInt64) : Item :=
  if it.hasCas then { it with cas := cas } else it

def sizeofItem : Nat := 48

def itemNtotal (it : Item) : Nat :=
  sizeofItem + it.nkey + 1 + it.nsuffix + it.nbytes + if it.hasCas then 8 else 0

/-- The chunk sizes of the slab classes `1 .. power_largest`. Every class has a
row of its own in `heads` and `tails`, as `item_link_q` asserts. -/
structure SlabClasses where
  sizes : List Nat
  fits : sizes.length < LARGEST_ID

theorem SlabClasses.row (c : SlabClasses) {i : Nat} (h : i < c.sizes.length) : i + 1 < LARGEST_ID :=
  Nat.lt_of_le_of_lt h c.fits

def slabsClsid (c : SlabClasses) (size : Nat) : SlabId :=
  if size = 0 then 0
  else
    let i := c.sizes.findIdx fun s => decide (size ≤ s)
    if h : i < c.sizes.length then ⟨i + 1, c.row h⟩ else 0

structure Settings where
  useCas : Bool
  evictToFree : Bool
  slabclass : SlabClasses
  hash : Bytes → UInt32
  refMod : Nat
  counts : refMod = 0 ∨ refMod = 2 ^ 16

theorem counts_ushort : 2 ^ 16 = 0 ∨ 2 ^ 16 = 2 ^ 16 := .inr rfl

structure Store where
  mem : Ptr → Item
  heads : SlabId → Option Ptr
  tails : SlabId → Option Ptr
  sizes : SlabId → Nat
  assoc : Assoc Ptr
  slots : SlabId → List Ptr
  /-- The chunks of all pages in the slab lists. -/
  carved : List Ptr
  currBytes : Nat
  currItems : Nat
  totalItems : Nat
  casId : UInt64
  currentTime : UInt32
  oldestLive : UInt32
  /-- `slab_start` and `slab_end` while `slab_rebalance_signal` is set. -/
  slabRebal : Option (Ptr × Ptr)

namespace Store

def key (s : Store) (it : Ptr) : Bytes := itemKey (s.mem it)

def modify (s : Store) (it : Ptr) (f : Item → Item) : Store :=
  { s with mem := Function.update s.mem it (f (s.mem it)) }

/-- `if (node) node->next = link` -/
def setNext (s : Store) (node link : Option Ptr) : Store :=
  match node with
  | none => s
  | some it => s.modify it fun i => { i with next := link }

/-- `if (node) node->prev = link` -/
def setPrev (s : Store) (node link : Option Ptr) : Store :=
  match node with
  | none => s
  | some it => s.modify it fun i => { i with prev := link }

end Store

def refcountIncr (cfg : Settings) (s : Store) (it : Ptr) : Store :=
  s.modify it fun i => { i with refcount := (i.refcount + 1) % cfg.refMod }

def refcountDecr (cfg : Settings) (s : Store) (it : Ptr) : Store :=
  s.modify it fun i => { i with refcount := (i.refcount + cfg.refMod - 1) % cfg.refMod }

def getCasId (s : Store) : Store := { s with casId := s.casId + 1 }

/-! ## Slab chunks -/

def slabsFree (cfg : Settings) (s : Store) (it : Ptr) (id : SlabId) : Store :=
  if id.val < 1 ∨ cfg.slabclass.sizes.length < id.val then s
  else
    let s := s.modify it fun i =>
      { i with slabbed := true, prev := none, next := (s.slots id).head? }
    { s with slots := Function.update s.slots id (it :: s.slots id) }

/-- `do_slabs_newslab`: the chunks of a zeroed page go to the free list one by one. -/
def slabsNewslab (s : Store) (id : SlabId) (page : List Ptr) : Store :=
  { s with
    mem := fun p => if p ∈ page then emptyItem else s.mem p
    slots := Function.update s.slots id (page.reverse ++ s.slots id)
    carved := page ++ s.carved }

/-- `do_slabs_alloc`. When the free list is empty, `newslab` is the page that
`memory_allocate` grants, if it grants one. -/
def slabsAlloc (s : Store) (id : SlabId) (newslab : Option (List Ptr)) : Store × Option Ptr :=
  let s := match s.slots id, newslab with
    | [], some page => slabsNewslab s id page
    | _, _ => s
  match s.slots id with
  | [] => (s, none)
  | it :: rest => ({ s with slots := Function.update s.slots id rest }, some it)

def itemFree (cfg : Settings) (s : Store) (it : Ptr) : Store :=
  let clsid := (s.mem it).slabsClsid
  slabsFree cfg (s.modify it fun i => { i with slabsClsid := 0 }) it clsid

/-! ## The queues -/

def itemLinkQ (s : Store) (it : Ptr) : Store :=
  let id := (s.mem it).slabsClsid
  let head := s.heads id
  let s := s.modify it fun i => { i with prev := none, next := head }
  let s := s.setPrev head (some it)
  { s with
    heads := Function.update s.heads id (some it)
    tails := if s.tails id = none then Function.update s.tails id (some it) else s.tails
    sizes := Function.update s.sizes id (s.sizes id + 1) }

def itemUnlinkQ (s : Store) (it : Ptr) : Store :=
  let id := (s.mem it).slabsClsid
  let next := (s.mem it).next
  let prev := (s.mem it).prev
  let s := { s with
    heads := if s.heads id = some it then Function.update s.heads id next else s.heads
    tails := if s.tails id = some it then Function.update s.tails id prev else s.tails
    sizes := Function.update s.sizes id (s.sizes id - 1) }
  (s.setPrev next prev).setNext prev next

/-! ## Linking and unlinking -/

def doItemRemove (cfg : Settings) (s : Store) (it : Ptr) : Store :=
  let s := refcountDecr cfg s it
  if (s.mem it).refcount = 0 then itemFree cfg s it else s

def doItemLink (cfg : Settings) (s : Store) (it : Ptr) (hv : UInt32) : Store :=
  let s := s.modify it fun i => { i with linked := true, time := s.currentTime }
  let s := { s with
    currBytes := s.currBytes + itemNtotal (s.mem it)
    currItems := s.currItems + 1
    totalItems := s.totalItems + 1 }
  let s := if cfg.useCas then getCasId s else s
  let s := s.modify it fun i => itemSetCas i (if cfg.useCas then s.casId else 0)
  let s := { s with assoc := assocInsert s.assoc it hv }
  refcountIncr cfg (itemLinkQ s it) it

def doItemUnlinkNolock (cfg : Settings) (s : Store) (it : Ptr) (hv : UInt32) : Store :=
  if (s.mem it).linked then
    let s := s.modify it fun i => { i with linked := false }
    let s := { s with
      currBytes := s.currBytes - itemNtotal (s.mem it)
      currItems := s.currItems - 1
      assoc := assocDelete s.key s.assoc (s.key it) hv }
    doItemRemove cfg (itemUnlinkQ s it) it
  else s

/-- `do_item_unlink` differs from `do_item_unlink_nolock` by the cache lock only. -/
def doItemUnlink (cfg : Settings) (s : Store) (it : Ptr) (hv : UInt32) : Store :=
  doItemUnlinkNolock cfg s it hv

def doItemUpdate (s : Store) (it : Ptr) : Store :=
  if (s.mem it).time < s.currentTime - ITEM_UPDATE_INTERVAL then
    if (s.mem it).linked then
      let s := itemUnlinkQ s it
      let s := s.modify it fun i => { i with time := s.currentTime }
      itemLinkQ s it
    else s
  else s

def doItemReplace (cfg : Settings) (s : Store) (it newIt : Ptr) (hv : UInt32) : Store :=
  doItemLink cfg (doItemUnlink cfg s it hv) newIt hv

/-! ## Allocation -/

/-- The text between key and data: `" %d %d\r\n"` of the flags and the length. -/
def headerSuffix (flags : Int) (nbytes : Nat) : Bytes :=
  32 :: decimalInt flags ++ 32 :: decimalInt (nbytes - 2) ++ [13, 10]

def itemMakeHeader (cfg : Settings) (nkey : Nat) (flags : Int) (nbytes : Nat) : Nat :=
  sizeofItem + nkey + (headerSuffix flags nbytes).length + nbytes + if cfg.useCas then 8 else 0

/-- The text that `item_make_header` prints, for a length of any sign. -/
def suffixText (flags nbytes : Int) : Bytes :=
  32 :: decimalInt flags ++ 32 :: decimalInt (nbytes - 2) ++ [13, 10]

/-- `ntotal`, a `size_t`, for a length of any sign. The length of the key is passed as a
`uint8_t`. -/
def requestSize (cfg : Settings) (nkey : Nat) (flags nbytes : Int) : Nat :=
  ((sizeofItem + ((nkey + 1) % 2 ^ 8 : Nat) + (suffixText flags nbytes).length + nbytes +
    if cfg.useCas then 8 else 0 : Int) % 2 ^ 64).toNat

/-- What the allocation loop meets around it: which item locks are free, and the
page a new slab would get. -/
structure AllocEnv where
  trylock : UInt32 → Bool
  newslab : Option (List Ptr)

inductive Search where
  | taken (it : Ptr)
  | outOfMemory
  | exhausted

def expiredOrFlushed (s : Store) (search : Item) : Bool :=
  (search.exptime != 0 && search.exptime < s.currentTime) ||
    (search.time ≤ s.oldestLive && s.oldestLive ≤ s.currentTime)

/-- An item of the queue gives up its chunk, expired or evicted. -/
def takeChunk (cfg : Settings) (s : Store) (it : Ptr) (hv : UInt32) : Store :=
  (doItemUnlinkNolock cfg s it hv).modify it fun i => { i with slabsClsid := 0 }

/-- The loop of `do_item_alloc` over the tail of the queue, `tries` items at most. -/
def allocSearch (cfg : Settings) (env : AllocEnv) (id : SlabId) (curHv : UInt32) :
    Nat → Option Ptr → Store → Store × Search
  | 0, _, s => (s, .exhausted)
  | _ + 1, none, s => (s, .exhausted)
  | tries + 1, some search, s =>
    let hv := cfg.hash (s.key search)
    if hv ≠ curHv ∧ env.trylock hv = false then
      allocSearch cfg env id curHv tries (s.mem search).prev s
    else
      let s := refcountIncr cfg s search
      if (s.mem search).refcount ≠ 2 then
        let s := refcountDecr cfg s search
        let s := if (s.mem search).time + TAIL_REPAIR_TIME < s.currentTime then
            doItemUnlinkNolock cfg (s.modify search fun i => { i with refcount := 1 }) search hv
          else s
        allocSearch cfg env id curHv tries (s.mem search).prev s
      else
        let (s, r) :=
          if expiredOrFlushed s (s.mem search) then
            (takeChunk cfg s search hv, Search.taken search)
          else match slabsAlloc s id env.newslab with
            | (s, some it) => (s, .taken it)
            | (s, none) =>
              if cfg.evictToFree then (takeChunk cfg s search hv, .taken search)
              else (s, .outOfMemory)
        (refcountDecr cfg s search, r)

/-- The fields `do_item_alloc` writes into the chunk it hands out. The byte after
the key and the bytes of the data keep what the chunk held before. -/
def itemInit (cfg : Settings) (id : SlabId) (key : Bytes) (flags : Int) (exptime : UInt32)
    (nbytes : Nat) (it : Item) : Item :=
  { it with
    refcount := 1
    next := none
    prev := none
    slabsClsid := id
    linked := false
    hasCas := cfg.useCas
    slabbed := false
    fetched := false
    nkey := key.length
    nbytes := nbytes
    exptime := exptime
    nsuffix := (headerSuffix flags nbytes).length
    bytes := blit (blit it.bytes 0 key) (key.length + 1) (headerSuffix flags nbytes) }

/-- The part of `do_item_alloc` that finds a chunk, under the cache lock. -/
def allocChunk (cfg : Settings) (env : AllocEnv) (s : Store) (id : SlabId) (curHv : UInt32) :
    Store × Option Ptr :=
  match allocSearch cfg env id curHv 5 (s.tails id) s with
  | (s, .taken it) => (s, some it)
  | (s, .outOfMemory) => (s, none)
  | (s, .exhausted) => slabsAlloc s id env.newslab

def doItemAlloc (cfg : Settings) (env : AllocEnv) (s : Store) (key : Bytes) (flags : Int)
    (exptime : UInt32) (nbytes : Nat) (curHv : UInt32) : Store × Option Ptr :=
  let id := slabsClsid cfg.slabclass (itemMakeHeader cfg (key.length + 1) flags nbytes)
  if id = 0 then (s, none)
  else match allocChunk cfg env s id curHv with
    | (s, none) => (s, none)
    | (s, some it) => (s.modify it (itemInit cfg id key flags exptime nbytes), some it)

/-! ## Lookup and flush -/

def inRebalance (s : Store) (it : Ptr) : Bool :=
  match s.slabRebal with
  | none => false
  | some (slabStart, slabEnd) => slabStart ≤ it && it < slabEnd

/-- An item found in the table that a lookup must not return any more. -/
def flushedOrExpired (s : Store) (it : Item) : Bool :=
  (s.oldestLive != 0 && s.oldestLive ≤ s.currentTime && it.time ≤ s.oldestLive) ||
    (it.exptime != 0 && it.exptime ≤ s.currentTime)

def doItemGet (cfg : Settings) (s : Store) (key : Bytes) (hv : UInt32) : Store × Option Ptr :=
  match assocFind s.key s.assoc key hv with
  | none => (s, none)
  | some it =>
    let s := refcountIncr cfg s it
    if inRebalance s it then (doItemRemove cfg (doItemUnlinkNolock cfg s it hv) it, none)
    else if flushedOrExpired s (s.mem it) then
      (doItemRemove cfg (doItemUnlink cfg s it hv) it, none)
    else (s.modify it fun i => { i with fetched := true }, some it)

def doItemTouch (cfg : Settings) (s : Store) (key : Bytes) (exptime : UInt32) (hv : UInt32) :
    Store × Option Ptr :=
  match doItemGet cfg s key hv with
  | (s, none) => (s, none)
  | (s, some it) => (s.modify it fun i => { i with exptime := exptime }, some it)

/-- The walk over one queue, at most `fuel` items of it. -/
def flushClass (cfg : Settings) : Nat → Option Ptr → Store → Store
  | 0, _, s => s
  | _ + 1, none, s => s
  | fuel + 1, some iter, s =>
    if s.oldestLive ≤ (s.mem iter).time then
      let next := (s.mem iter).next
      let s := if (s.mem iter).slabbed then s
        else doItemUnlinkNolock cfg s iter (cfg.hash (s.key iter))
      flushClass cfg fuel next s
    else s

/-- `do_item_flush_expired`. The queue of class `i` holds `sizes i` items. -/
def doItemFlushExpired (cfg : Settings) (s : Store) : Store :=
  if s.oldestLive = 0 then s
  else (List.finRange LARGEST_ID).foldl (fun s i => flushClass cfg (s.sizes i) (s.heads i) s) s

end RamCube
