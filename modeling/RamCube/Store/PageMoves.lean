import RamCube.Store.AllocCases

/-! # Pages that move between slab classes

`slab_rebalance_start`, `slab_rebalance_move` and `slab_rebalance_finish` of slabs.c over
the memory of items: the chunks of one page are cleared one by one while items are stored
and allocated, and the page is then split into chunks of another class. A chunk that was
cleared is marked by a class of 255 in the source; here the marked chunks are listed. -/
namespace RamCube

/-- `slab_rebal`. The addresses from `slab_start` to `slab_end` are given as the list of the
chunks there, and `slab_pos` as the number of chunks before it. -/
structure Rebalance where
  src : SlabId
  dst : SlabId
  page : List Ptr
  pos : Nat
  busyItems : Nat
  done : Bool
  marked : List Ptr

inductive MoveStatus where
  | pass
  | done
  | busy
  | locked
deriving DecidableEq

/-- `it->refcount = 0; it->it_flags = 0; it->slabs_clsid = 255` -/
def clearItem (it : Item) : Item :=
  { it with
    refcount := 0
    linked := false
    hasCas := false
    slabbed := false
    fetched := false
    slabsClsid := 0 }

namespace ItemMemory

variable (cfg : Settings) (m : ItemMemory)

/-- `slab_rebalance_start`; `grown` says whether the list of the pages of the destination
could be made long enough. Nothing is started when it is `none`. -/
def slabRebalanceStart (src dst : SlabId) (grown : Bool) : Option (ItemMemory × Rebalance) :=
  if src.val < 1 ∨ cfg.slabclass.sizes.length < src.val ∨ dst.val < 1 ∨ cfg.slabclass.sizes.length < dst.val ∨
      src = dst ∨ grown = false ∨ (m.slabList src).length < 2 then none
  else
    let page := (m.slabList src).headD []
    let slabStart := page.headD 0
    let slabEnd := slabStart + cfg.slabclass.sizes.getD (src.val - 1) 0 * page.length
    some (m.onStore fun s => { s with slabRebal := some (slabStart, slabEnd) },
      { src := src, dst := dst, page := page, pos := 0, busyItems := 0, done := false, marked := [] })

def mark (it : Ptr) : ItemMemory := m.onStore fun s => s.modify it clearItem

/-- What is found out about the chunk at `slab_pos`, and done with it. `free` says whether
its item lock can be had. -/
def moveChunk (r : Rebalance) (it : Ptr) (free : Bool) : ItemMemory × MoveStatus :=
  if it ∈ r.marked then (m, .pass)
  else if free = false then (m, .locked)
  else
    let hv := cfg.hash (m.store.key it)
    let m := m.onStore fun s => refcountIncr cfg s it
    let refcount := (m.store.mem it).refcount
    if refcount = 1 then
      if (m.store.mem it).slabbed then
        (m.onStore fun s => { s with slots := Function.update s.slots r.src ((s.slots r.src).erase it) }, .done)
      else (m, .busy)
    else if refcount = 2 then
      if (m.store.mem it).linked then (m.doItemUnlinkNolock cfg it hv, .done) else (m, .busy)
    else (m, .busy)

/-- One turn of the loop of `slab_rebalance_move`. -/
def moveTurn (r : Rebalance) (it : Ptr) (free : Bool) : ItemMemory × Rebalance :=
  let r' := { r with pos := r.pos + 1 }
  match m.moveChunk cfg r it free with
  | (m, .pass) => (m, r')
  | (m, .done) => (m.mark it, { r' with marked := it :: r.marked })
  | (m, .busy) => (m.onStore fun s => refcountDecr cfg s it, { r' with busyItems := r.busyItems + 1 })
  | (m, .locked) => (m, { r' with busyItems := r.busyItems + 1 })

/-- The loop, which looks at `slab_bulk_check` chunks, but not behind the page. -/
def moveLoop : List Bool → ItemMemory × Rebalance → ItemMemory × Rebalance
  | [], mr => mr
  | free :: frees, (m, r) =>
    match r.page[r.pos]? with
    | none => (m, r)
    | some it => moveLoop frees (m.moveTurn cfg r it free)

/-- `slab_rebalance_move`, with the answers of `item_trylock` for each chunk. -/
def slabRebalanceMove (r : Rebalance) (frees : List Bool) : ItemMemory × Rebalance :=
  let (m, r) := moveLoop cfg frees (m, r)
  if r.page.length ≤ r.pos then
    if r.busyItems ≠ 0 then (m, { r with pos := 0, busyItems := 0 })
    else (m, { r with done := true })
  else (m, r)

/-- `slab_rebalance_finish`: the last page takes the place of the moved one, which is split
into the chunks `chunks` of its new class. -/
def slabRebalanceFinish (r : Rebalance) (chunks : List Ptr) : ItemMemory :=
  let pages := m.slabList r.src
  let m := { m with
    slabList := Function.update m.slabList r.src ((pages.set 0 (pages.getLastD [])).dropLast)
    store := { m.store with carved := m.store.carved.filter (· ∉ r.page) } }
  (m.slabsNewslab r.dst chunks).onStore fun s => { s with slabRebal := none }

/-! ## What happens -/

/-- The functions of items.c that a command calls, other than the allocation. -/
def perform : ItemsOp → ItemMemory
  | .alloc .. => m
  | .link it => m.onStore fun s => doItemLink cfg s it (cfg.hash (s.key it))
  | .unlink it => m.doItemUnlinkNolock cfg it (cfg.hash (m.store.key it))
  | .remove it => m.doItemRemove cfg it
  | .replace it newIt => m.doItemReplace cfg it newIt (cfg.hash (m.store.key it))
  | .update it => m.onStore fun s => doItemUpdate s it
  | .get key => (m.doItemGet cfg key (cfg.hash key)).1
  | .touch key exptime => (m.doItemTouch cfg key exptime (cfg.hash key)).1
  | .flushExpired => m.doItemFlushExpired cfg
  | .write it bytes cas => m.onStore fun s => s.modify it fun i => itemSetCas { i with bytes := bytes } cas
  | .clock currentTime oldestLive slabRebal => m.onStore fun s =>
      { s with currentTime := currentTime, oldestLive := oldestLive, slabRebal := slabRebal }
  | .expand callocOk => m.onStore fun s => { s with assoc := assocExpand s.assoc callocOk }
  | .migrate => m.onStore fun s => { s with assoc := migrateBucket cfg.hash s.key s.assoc }

end ItemMemory

/-- The memory, the references held outside it, and the page that is moved, if one is. -/
structure MemoryState where
  memory : ItemMemory
  held : Ptr → Nat
  rebal : Option Rebalance

def memoryInit (hashpower : Nat) : MemoryState :=
  ⟨⟨storeInit hashpower, fun _ => [], fun _ => 0⟩, fun _ => 0, none⟩

inductive MemoryOp where
  | item (op : ItemsOp)
  | allocate (env : LockEnv) (entry : List Nat) (key : Bytes) (flags : Int) (exptime : UInt32) (nbytes : Int)
      (curHv : UInt32)
  | startMove (src dst : SlabId) (grown : Bool)
  | move (frees : List Bool)
  | finishMove (chunks : List Ptr)

/-- What the parsers let through to an allocation: the length of the key fits its byte, the
flags are an `int`, and so is the length of the data, which is not negative. -/
structure RequestOk (key : Bytes) (flags nbytes : Int) : Prop where
  key : key.length < 255
  flags : -2 ^ 31 ≤ flags ∧ flags < 2 ^ 31
  nbytes : 0 ≤ nbytes ∧ nbytes < 2 ^ 31

/-- Neither an allocation nor a change of the page that is moved. -/
def ItemsOp.OnItems (s : Store) : ItemsOp → Prop
  | .alloc .. => False
  | .clock _ _ slabRebal => slabRebal = s.slabRebal
  | _ => True

/-- Commands, allocations and the moves of pages in any order. A thread allocates with the
lengths that a request gives it, and finds no item at the tail that it has to repair. -/
inductive MemoryStep (cfg : Settings) : MemoryState → MemoryOp → MemoryState → Prop where
  | item (m : ItemMemory) (held : Ptr → Nat) (rebal : Option Rebalance) {op : ItemsOp} {s' : ItemsState} :
      ItemsStep cfg ⟨m.store, held⟩ op s' → op.OnItems m.store →
      MemoryStep cfg ⟨m, held, rebal⟩ (.item op) ⟨m.perform cfg op, s'.held, rebal⟩
  | allocate (m : ItemMemory) (held : Ptr → Nat) (rebal : Option Rebalance) (env : LockEnv) (entry : List Nat)
      (key : Bytes) (flags : Int) (exptime : UInt32) (nbytes : Int) (curHv : UInt32) :
      RequestOk key flags nbytes → FreshPage m.store env.newslab →
      repairFires cfg env entry curHv m.store 5
        (m.store.tails (slabsClsid cfg.slabclass (requestSize cfg key.length flags nbytes))) = false →
      MemoryStep cfg ⟨m, held, rebal⟩ (.allocate env entry key flags exptime nbytes curHv)
        ⟨(m.doItemAlloc cfg env entry key flags exptime nbytes curHv).1.memory,
          giveRef held (m.doItemAlloc cfg env entry key flags exptime nbytes curHv).2, rebal⟩
  | startMove (m : ItemMemory) (held : Ptr → Nat) (src dst : SlabId) (grown : Bool) {m' : ItemMemory} {r : Rebalance} :
      m.slabRebalanceStart cfg src dst grown = some (m', r) →
      MemoryStep cfg ⟨m, held, none⟩ (.startMove src dst grown) ⟨m', held, some r⟩
  | refuseMove (m : ItemMemory) (held : Ptr → Nat) (src dst : SlabId) (grown : Bool) :
      m.slabRebalanceStart cfg src dst grown = none →
      MemoryStep cfg ⟨m, held, none⟩ (.startMove src dst grown) ⟨m, held, none⟩
  | move (m : ItemMemory) (held : Ptr → Nat) (r : Rebalance) (frees : List Bool) : r.done = false →
      MemoryStep cfg ⟨m, held, some r⟩ (.move frees)
        ⟨(m.slabRebalanceMove cfg r frees).1, held, some (m.slabRebalanceMove cfg r frees).2⟩
  | finishMove (m : ItemMemory) (held : Ptr → Nat) (r : Rebalance) (chunks : List Ptr) : r.done = true →
      chunks.Nodup → (∀ p ∈ chunks, p ∈ m.store.carved → p ∈ r.page) →
      MemoryStep cfg ⟨m, held, some r⟩ (.finishMove chunks) ⟨m.slabRebalanceFinish r chunks, held, none⟩

end RamCube
