import RamCube.Store.ItemMemory

/-! # The allocation of an item (do_item_alloc)

The walk along the tail of a queue with the handle of the item lock that it keeps from
item to item, and with each `item_trylock` answered on its own: another thread may take
or give back a lock between two of them. -/
namespace RamCube

/-! ## Item locks -/

/-- An `item_trylock` that gets its lock, and an `item_trylock_unlock`. -/
inductive LockOp where
  | acquire (lock : Nat)
  | release (lock : Nat)
deriving DecidableEq

/-- `item_lock_count`, as `thread_init` sets it. -/
def itemLockCount (nthreads : Nat) : Nat :=
  hashsize (if nthreads < 3 then 10 else if nthreads < 4 then 11 else if nthreads < 5 then 12 else 13)

/-- `(hv & hashmask(hashpower)) % item_lock_count` -/
def itemLock (nthreads : Nat) (s : Store) (hv : UInt32) : Nat :=
  bucket s.assoc hv % itemLockCount nthreads

/-- What an allocation meets around it. -/
structure LockEnv where
  nthreads : Nat
  /-- the locks that other threads have when the walk has so many tries left -/
  others : Nat → Nat → Bool
  newslab : Option (List Ptr)

/-- The item locks of one thread. -/
structure ItemLocks where
  /-- `hold_lock` -/
  holdLock : Option Nat
  held : List Nat
  ops : List LockOp

namespace ItemLocks

/-- `hold_lock = item_trylock(hv)`. No thread gets a lock twice. -/
def itemTrylock (env : LockEnv) (s : Store) (tries : Nat) (hv : UInt32) (l : ItemLocks) : ItemLocks :=
  let lock := itemLock env.nthreads s hv
  if lock ∈ l.held ∨ env.others tries lock = true then { l with holdLock := none }
  else ⟨some lock, lock :: l.held, l.ops ++ [.acquire lock]⟩

/-- `if (hold_lock) item_trylock_unlock(hold_lock)` -/
def itemTrylockUnlock (l : ItemLocks) : ItemLocks :=
  match l.holdLock with
  | none => l
  | some lock => { l with held := l.held.erase lock, ops := l.ops ++ [.release lock] }

end ItemLocks

/-! ## The walk -/

namespace ItemMemory

variable (cfg : Settings) (m : ItemMemory)

/-- An item of the queue gives up its chunk, expired or evicted. -/
def takeChunk (it : Ptr) (ntotal : Nat) (hv : UInt32) : ItemMemory :=
  ((m.slabsAdjustMemRequested (m.store.mem it).slabsClsid (itemNtotal (m.store.mem it)) ntotal
    ).doItemUnlinkNolock cfg it hv).onStore fun s => s.modify it fun i => { i with slabsClsid := 0 }

/-- What the walk does at an item that only its link refers to. -/
def stopAt (ntotal : Nat) (id : SlabId) (newslab : Option (List Ptr)) (search : Ptr) (hv : UInt32) :
    ItemMemory × Search :=
  let m := m.onStore fun s => refcountIncr cfg s search
  let (m, r) :=
    if expiredOrFlushed m.store (m.store.mem search) then
      (m.takeChunk cfg search ntotal hv, Search.taken search)
    else match m.slabsAlloc ntotal id newslab with
      | (m, some it) => (m, .taken it)
      | (m, none) =>
        if cfg.evictToFree then (m.takeChunk cfg search ntotal hv, .taken search)
        else (m, .outOfMemory)
  (m.onStore fun s => refcountDecr cfg s search, r)

/-- Has nobody touched the item for `TAIL_REPAIR_TIME`? -/
def overdue (search : Ptr) : Bool :=
  (m.store.mem search).time + TAIL_REPAIR_TIME < m.store.currentTime

/-- The repair of an item at the tail. -/
def tailRepair (search : Ptr) (hv : UInt32) : ItemMemory :=
  (m.onStore fun s => s.modify search fun i => { i with refcount := 1 }).doItemUnlinkNolock cfg search hv

end ItemMemory

/-- An allocation under way. -/
structure Allocating where
  memory : ItemMemory
  locks : ItemLocks
  /-- the items counted in `itemstats[id].tailrepairs` -/
  repaired : List Ptr

namespace Allocating

/-- What the walk does at an item, under its lock or that of the caller. It goes on if the
item is referred to. -/
def look (cfg : Settings) (env : LockEnv) (ntotal : Nat) (id : SlabId) (search : Ptr) (hv : UInt32)
    (a : Allocating) : Allocating × Option Search :=
  let m := a.memory
  if ((refcountIncr cfg m.store search).mem search).refcount ≠ 2 then
    let m := m.onStore fun s => refcountDecr cfg (refcountIncr cfg s search) search
    let (m, repaired) :=
      if m.overdue search then (m.tailRepair cfg search hv, search :: a.repaired) else (m, a.repaired)
    (⟨m, a.locks.itemTrylockUnlock, repaired⟩, none)
  else
    let (m, r) := m.stopAt cfg ntotal id env.newslab search hv
    (⟨m, a.locks.itemTrylockUnlock, a.repaired⟩, some r)

/-- The loop over the tail of the queue, `tries` items at most. -/
def walk (cfg : Settings) (env : LockEnv) (ntotal : Nat) (id : SlabId) (curHv : UInt32) :
    Nat → Option Ptr → Allocating → Allocating × Search
  | 0, _, a => (a, .exhausted)
  | _ + 1, none, a => (a, .exhausted)
  | tries + 1, some search, a =>
    let hv := cfg.hash (a.memory.store.key search)
    let a := { a with locks :=
      if hv ≠ curHv then a.locks.itemTrylock env a.memory.store (tries + 1) hv else a.locks }
    if hv ≠ curHv ∧ a.locks.holdLock = none then
      walk cfg env ntotal id curHv tries (a.memory.store.mem search).prev a
    else match look cfg env ntotal id search hv a with
      | (a, none) => walk cfg env ntotal id curHv tries (a.memory.store.mem search).prev a
      | (a, some r) => (a, r)

/-- The part of `do_item_alloc` that finds a chunk. -/
def chunk (cfg : Settings) (env : LockEnv) (ntotal : Nat) (id : SlabId) (curHv : UInt32) (a : Allocating) :
    Allocating × Option Ptr :=
  match walk cfg env ntotal id curHv 5 (a.memory.store.tails id) a with
  | (a, .taken it) => (a, some it)
  | (a, .outOfMemory) => (a, none)
  | (a, .exhausted) =>
    let (m, it) := a.memory.slabsAlloc ntotal id env.newslab
    ({ a with memory := m }, it)

end Allocating

/-! ## The item -/

/-- `do_item_alloc` by a thread that has the locks `held`. The header keeps a length that
is not negative. -/
def ItemMemory.doItemAlloc (cfg : Settings) (env : LockEnv) (held : List Nat) (m : ItemMemory)
    (key : Bytes) (flags : Int) (exptime : UInt32) (nbytes : Int) (curHv : UInt32) :
    Allocating × Option Ptr :=
  let ntotal := requestSize cfg key.length flags nbytes
  let id := slabsClsid cfg.slabclass ntotal
  if id = 0 then (⟨m, ⟨none, held, []⟩, []⟩, none)
  else match Allocating.chunk cfg env ntotal id curHv ⟨m, ⟨none, held, []⟩, []⟩ with
    | (a, none) => (a, none)
    | (a, some it) =>
      ({ a with memory := a.memory.onStore fun s =>
          s.modify it (itemInit cfg id key flags exptime nbytes.toNat) }, some it)

/-! ## The store is the same

An allocation whose `item_trylock` is answered by the hash value alone is the allocation of
`Items`. -/

variable {cfg : Settings} {env : LockEnv} {entry : List Nat} {l : ItemLocks} {s : Store}

/-- The locks of a thread between two items: those it came with, and at most the handle of
a lock it has given back. -/
structure ItemLocks.Idle (entry : List Nat) (l : ItemLocks) : Prop where
  held : l.held = entry
  stale : ∀ lock ∈ l.holdLock, lock ∉ entry

/-- The lock of a hash value is free when so many tries are left. -/
def lockFree (env : LockEnv) (entry : List Nat) (s : Store) (tries : Nat) (hv : UInt32) : Prop :=
  itemLock env.nthreads s hv ∉ entry ∧ env.others tries (itemLock env.nthreads s hv) = false

theorem idle_start (entry : List Nat) : ItemLocks.Idle entry ⟨none, entry, []⟩ :=
  ⟨rfl, nofun⟩

namespace ItemLocks.Idle

theorem trylock_free (h : l.Idle entry) {tries : Nat} {hv : UInt32} (hf : lockFree env entry s tries hv) :
    l.itemTrylock env s tries hv = ⟨some (itemLock env.nthreads s hv), itemLock env.nthreads s hv :: entry,
      l.ops ++ [.acquire (itemLock env.nthreads s hv)]⟩ := by
  unfold itemTrylock
  dsimp only
  rw [h.held, if_neg (not_or.mpr ⟨hf.1, Bool.eq_false_iff.mp hf.2⟩)]

theorem trylock_taken (h : l.Idle entry) {tries : Nat} {hv : UInt32} (hf : ¬lockFree env entry s tries hv) :
    l.itemTrylock env s tries hv = { l with holdLock := none } := by
  refine if_pos ?_
  rw [h.held]
  by_contra hno
  obtain ⟨h1, h2⟩ := not_or.mp hno
  exact hf ⟨h1, Bool.eq_false_iff.mpr h2⟩

/-- Giving back a lock given back before takes none of the locks the thread came with. -/
theorem unlock (h : l.Idle entry) : l.itemTrylockUnlock.Idle entry := by
  unfold itemTrylockUnlock
  cases hl : l.holdLock with
  | none => exact h
  | some lock =>
    refine ⟨?_, fun k hk => h.stale k (by simpa [hl] using hk)⟩
    change l.held.erase lock = entry
    rw [h.held, List.erase_of_not_mem (h.stale lock hl)]

theorem skip (h : l.Idle entry) : ItemLocks.Idle entry { l with holdLock := none } :=
  ⟨h.held, nofun⟩

/-- A lock taken for one item is given back behind it. -/
theorem visit (h : l.Idle entry) {tries : Nat} {hv : UInt32} (hf : lockFree env entry s tries hv) :
    (l.itemTrylock env s tries hv).itemTrylockUnlock = ⟨some (itemLock env.nthreads s hv), entry,
      l.ops ++ [.acquire (itemLock env.nthreads s hv), .release (itemLock env.nthreads s hv)]⟩ := by
  rw [h.trylock_free hf]
  simp [itemTrylockUnlock]

theorem visited (h : l.Idle entry) {tries : Nat} {hv : UInt32} (hf : lockFree env entry s tries hv) :
    (l.itemTrylock env s tries hv).itemTrylockUnlock.Idle entry := by
  rw [h.visit hf]
  refine ⟨rfl, fun k hk => ?_⟩
  cases hk
  exact hf.1

end ItemLocks.Idle

theorem assoc_itemFree (cfg : Settings) (s : Store) (it : Ptr) : (itemFree cfg s it).assoc = s.assoc := by
  obtain ⟨f, slots, he, _⟩ := slabsFree_mem cfg (s.modify it fun i => { i with slabsClsid := 0 }) it
    (s.mem it).slabsClsid
  rw [itemFree, he]
  rfl

theorem assoc_doItemRemove (cfg : Settings) (s : Store) (it : Ptr) :
    (doItemRemove cfg s it).assoc = s.assoc := by
  unfold doItemRemove
  dsimp only
  split
  · exact assoc_itemFree cfg (refcountDecr cfg s it) it
  · rfl

theorem hashpower_assocDelete (keyOf : Ptr → Bytes) (t : Assoc Ptr) (key : Bytes) (hv : UInt32) :
    (assocDelete keyOf t key hv).hashpower = t.hashpower := by
  simp only [assocDelete, apply_ite Assoc.hashpower, ite_self]

theorem hashpower_unlink (cfg : Settings) (s : Store) (it : Ptr) (hv : UInt32) :
    (doItemUnlinkNolock cfg s it hv).assoc.hashpower = s.assoc.hashpower := by
  rw [doItemUnlinkNolock_eq]
  split
  · rw [assoc_doItemRemove, unlinkItem]
    obtain ⟨_, hrest⟩ := itemUnlinkQ_rest { s.modify it fun i => { i with linked := false } with
      currBytes := _, currItems := _, assoc := _ } it
    rw [hrest]
    exact hashpower_assocDelete _ _ _ _
  · rfl

theorem lockFree_congr {s' : Store} (h : s'.assoc.hashpower = s.assoc.hashpower) {tries : Nat} {hv : UInt32} :
    lockFree env entry s' tries hv ↔ lockFree env entry s tries hv := by
  unfold lockFree itemLock bucket
  rw [h]

theorem ItemMemory.store_takeChunk (cfg : Settings) (m : ItemMemory) (it : Ptr) (ntotal : Nat) (hv : UInt32) :
    (m.takeChunk cfg it ntotal hv).store = RamCube.takeChunk cfg m.store it hv := by
  rw [takeChunk, store_onStore, store_unlink]
  rfl

theorem ItemMemory.store_tailRepair (cfg : Settings) (m : ItemMemory) (it : Ptr) (hv : UInt32) :
    (m.tailRepair cfg it hv).store =
      RamCube.doItemUnlinkNolock cfg (m.store.modify it fun i => { i with refcount := 1 }) it hv :=
  store_unlink _ _ _ _

theorem ItemMemory.store_stopAt (cfg : Settings) (m : ItemMemory) (ntotal : Nat) (id : SlabId) (e : AllocEnv)
    (search : Ptr) : (m.stopAt cfg ntotal id e.newslab search (cfg.hash (m.store.key search))).1.store =
        (searchAt cfg e id m.store search).1 ∧
      (m.stopAt cfg ntotal id e.newslab search (cfg.hash (m.store.key search))).2 =
        (searchAt cfg e id m.store search).2 := by
  obtain ⟨h1, h2⟩ := (m.onStore fun s => refcountIncr cfg s search).store_slabsAlloc ntotal id e.newslab
  rw [store_onStore] at h1 h2
  unfold stopAt
  dsimp only
  split
  · rename_i he
    rw [store_onStore] at he
    simp [searchAt, he, store_takeChunk]
  · rename_i he
    rw [store_onStore] at he
    simp only [searchAt, if_neg he]
    generalize slabsAlloc (m.onStore fun s => refcountIncr cfg s search) ntotal id e.newslab = r at *
    generalize RamCube.slabsAlloc (refcountIncr cfg m.store search) id e.newslab = r' at *
    obtain ⟨m1, it⟩ := r
    obtain ⟨s1, it'⟩ := r'
    dsimp only at h1 h2
    subst h1 h2
    cases it with
    | some it => exact ⟨rfl, rfl⟩
    | none =>
      dsimp only
      split
      · exact ⟨congrArg (refcountDecr cfg · search) (store_takeChunk cfg _ search ntotal _), rfl⟩
      · exact ⟨rfl, rfl⟩

namespace Allocating

/-- An item that is referred to is left alone or repaired. -/
theorem look_busy {ntotal : Nat} {id : SlabId} {search : Ptr} {hv : UInt32} {a : Allocating}
    (h2 : ((refcountIncr cfg a.memory.store search).mem search).refcount ≠ 2) :
    ∃ m repaired, look cfg env ntotal id search hv a = (⟨m, a.locks.itemTrylockUnlock, repaired⟩, none) ∧
      m.store = if ((refcountDecr cfg (refcountIncr cfg a.memory.store search) search).mem search).time +
          TAIL_REPAIR_TIME < a.memory.store.currentTime then
        RamCube.doItemUnlinkNolock cfg ((refcountDecr cfg (refcountIncr cfg a.memory.store search) search).modify
          search fun i => { i with refcount := 1 }) search hv
      else refcountDecr cfg (refcountIncr cfg a.memory.store search) search := by
  unfold look
  dsimp only
  rw [if_pos h2]
  refine ⟨_, _, rfl, ?_⟩
  have hm : (a.memory.onStore fun s => refcountDecr cfg (refcountIncr cfg s search) search).store =
    refcountDecr cfg (refcountIncr cfg a.memory.store search) search := rfl
  have ht : a.memory.store.currentTime =
    (refcountDecr cfg (refcountIncr cfg a.memory.store search) search).currentTime := rfl
  rw [ht, ← hm]
  generalize a.memory.onStore (fun s => refcountDecr cfg (refcountIncr cfg s search) search) = m
  by_cases ho : m.overdue search = true
  · rw [if_pos ho, if_pos (of_decide_eq_true ho)]
    exact m.store_tailRepair cfg search hv
  · rw [if_neg ho, if_neg fun h => ho (decide_eq_true h)]

theorem look_free {ntotal : Nat} {id : SlabId} {search : Ptr} {hv : UInt32} {a : Allocating}
    (h2 : ((refcountIncr cfg a.memory.store search).mem search).refcount = 2) :
    look cfg env ntotal id search hv a =
      (⟨(a.memory.stopAt cfg ntotal id env.newslab search hv).1, a.locks.itemTrylockUnlock, a.repaired⟩,
        some (a.memory.stopAt cfg ntotal id env.newslab search hv).2) :=
  if_neg (not_not.mpr h2)

theorem walk_none (cfg : Settings) (env : LockEnv) (ntotal : Nat) (id : SlabId) (curHv : UInt32) (tries : Nat)
    (a : Allocating) : walk cfg env ntotal id curHv tries none a = (a, .exhausted) := by
  cases tries <;> rfl

theorem walk_store {trylock : UInt32 → Bool} {ntotal : Nat} {id : SlabId} {curHv : UInt32}
    {a : Allocating} (hl : a.locks.Idle entry) (hp : a.memory.store.assoc.hashpower = s.assoc.hashpower)
    (ht : ∀ tries hv, trylock hv = true ↔ lockFree env entry s tries hv) (tries : Nat) (search : Option Ptr) :
    (walk cfg env ntotal id curHv tries search a).1.memory.store =
        (allocSearch cfg ⟨trylock, env.newslab⟩ id curHv tries search a.memory.store).1 ∧
      (walk cfg env ntotal id curHv tries search a).2 =
        (allocSearch cfg ⟨trylock, env.newslab⟩ id curHv tries search a.memory.store).2 := by
  induction tries generalizing a search with
  | zero => exact ⟨rfl, rfl⟩
  | succ tries ih =>
    cases search with
    | none => exact ⟨rfl, rfl⟩
    | some search =>
      have hfree := fun hv => (ht (tries + 1) hv).trans (lockFree_congr hp).symm
      simp only [walk, allocSearch]
      generalize hhv : cfg.hash (a.memory.store.key search) = hv
      by_cases hskip : hv ≠ curHv ∧ trylock hv = false
      · have htaken := (not_congr (hfree hv)).mp (by simp [hskip.2])
        rw [if_pos hskip, if_pos hskip.1, hl.trylock_taken htaken, if_pos ⟨hskip.1, rfl⟩]
        exact ih (a := ⟨_, _, _⟩) hl.skip hp _
      · -- the item is looked at, with its lock or under that of the caller
        have hlocks : ∃ l', (if hv ≠ curHv then a.locks.itemTrylock env a.memory.store (tries + 1) hv
            else a.locks) = l' ∧ ¬(hv ≠ curHv ∧ l'.holdLock = none) ∧ l'.itemTrylockUnlock.Idle entry := by
          by_cases he : hv = curHv
          · exact ⟨_, if_neg (not_not.mpr he), fun h => h.1 he, hl.unlock⟩
          · have hf := (hfree hv).mp (by simpa [he] using hskip)
            refine ⟨_, if_pos he, fun h => ?_, hl.visited hf⟩
            rw [hl.trylock_free hf] at h
            cases h.2
        obtain ⟨l', hl', hgo, hidle⟩ := hlocks
        rw [hl', if_neg hgo, if_neg hskip]
        by_cases h2 : ((refcountIncr cfg a.memory.store search).mem search).refcount = 2
        · obtain ⟨h1, h3⟩ := a.memory.store_stopAt cfg ntotal id ⟨trylock, env.newslab⟩ search
          rw [hhv] at h1 h3
          simp only [searchAt, hhv] at h1 h3
          rw [look_free (a := ⟨a.memory, l', a.repaired⟩) h2, if_neg (not_not.mpr h2)]
          exact ⟨h1, h3⟩
        · obtain ⟨m, repaired, he, hm⟩ := look_busy (a := ⟨a.memory, l', a.repaired⟩) h2
          rw [he, if_pos h2]
          dsimp only
          have hpower : m.store.assoc.hashpower = s.assoc.hashpower := by
            rw [hm]
            split
            · rw [hashpower_unlink]
              exact hp
            · exact hp
          have hi := ih (a := ⟨m, l'.itemTrylockUnlock, repaired⟩) hidle hpower (m.store.mem search).prev
          rw [hm] at hi
          rw [hm]
          exact hi

end Allocating

theorem requestSize_eq {nkey n : Nat} {flags : Int} (hk : nkey < 255)
    (hn : itemMakeHeader cfg (nkey + 1) flags n < 2 ^ 64) :
    requestSize cfg nkey flags n = itemMakeHeader cfg (nkey + 1) flags n := by
  have hkey : (nkey + 1) % 2 ^ 8 = nkey + 1 := Nat.mod_eq_of_lt (by omega)
  have hsum : (sizeofItem + ((nkey + 1 : Nat) : Int) + (suffixText flags n).length + n +
      if cfg.useCas then 8 else 0 : Int) = (itemMakeHeader cfg (nkey + 1) flags n : Nat) := by
    unfold itemMakeHeader
    cases cfg.useCas <;> simp [suffixText, headerSuffix]
  rw [requestSize, hkey, hsum]
  omega

/-- `do_item_alloc` is the allocation of `Items` where the size does not wrap around and the
locks are free by their hash values. -/
theorem ItemMemory.doItemAlloc_store {m : ItemMemory} {trylock : UInt32 → Bool} {key : Bytes} {flags : Int}
    {n : Nat} (hk : key.length < 255) (hn : itemMakeHeader cfg (key.length + 1) flags n < 2 ^ 64)
    (ht : ∀ tries hv, trylock hv = true ↔ lockFree env entry m.store tries hv) (exptime : UInt32) (curHv : UInt32) :
    (m.doItemAlloc cfg env entry key flags exptime n curHv).1.memory.store =
        (RamCube.doItemAlloc cfg ⟨trylock, env.newslab⟩ m.store key flags exptime n curHv).1 ∧
      (m.doItemAlloc cfg env entry key flags exptime n curHv).2 =
        (RamCube.doItemAlloc cfg ⟨trylock, env.newslab⟩ m.store key flags exptime n curHv).2 := by
  unfold doItemAlloc RamCube.doItemAlloc
  rw [requestSize_eq hk hn]
  generalize itemMakeHeader cfg (key.length + 1) flags n = ntotal
  dsimp only
  split
  · exact ⟨rfl, rfl⟩
  · generalize slabsClsid cfg.slabclass ntotal = id
    have hchunk : (Allocating.chunk cfg env ntotal id curHv ⟨m, ⟨none, entry, []⟩, []⟩).1.memory.store =
          (allocChunk cfg ⟨trylock, env.newslab⟩ m.store id curHv).1 ∧
        (Allocating.chunk cfg env ntotal id curHv ⟨m, ⟨none, entry, []⟩, []⟩).2 =
          (allocChunk cfg ⟨trylock, env.newslab⟩ m.store id curHv).2 := by
      obtain ⟨h1, h2⟩ := @Allocating.walk_store cfg env entry m.store trylock ntotal id curHv
        ⟨m, ⟨none, entry, []⟩, []⟩ (idle_start entry) rfl ht 5 (m.store.tails id)
      unfold Allocating.chunk allocChunk
      dsimp only at h1 h2 ⊢
      generalize Allocating.walk cfg env ntotal id curHv 5 (m.store.tails id) _ = r at *
      generalize allocSearch cfg ⟨trylock, env.newslab⟩ id curHv 5 (m.store.tails id) m.store = r' at *
      obtain ⟨a, found⟩ := r
      obtain ⟨s', found'⟩ := r'
      dsimp only at h1 h2
      subst h1 h2
      cases found with
      | taken it => exact ⟨rfl, rfl⟩
      | outOfMemory => exact ⟨rfl, rfl⟩
      | exhausted => exact a.memory.store_slabsAlloc ntotal id env.newslab
    obtain ⟨h1, h2⟩ := hchunk
    generalize Allocating.chunk cfg env ntotal id curHv ⟨m, ⟨none, entry, []⟩, []⟩ = r at *
    generalize allocChunk cfg ⟨trylock, env.newslab⟩ m.store id curHv = r' at *
    obtain ⟨a, it⟩ := r
    obtain ⟨s', it'⟩ := r'
    dsimp only at h1 h2
    subst h1 h2
    cases it with
    | none => exact ⟨rfl, rfl⟩
    | some it => exact ⟨by simp, rfl⟩

/-! ## Repairs at the tail -/

theorem unlinkItem_links (s : Store) (it p : Ptr) (hv : UInt32) :
    ∃ n q l, (unlinkItem s it hv).mem p = { s.mem p with next := n, prev := q, linked := l } := by
  obtain ⟨n, q, he⟩ := relinked_itemUnlinkQ { s.modify it fun i => { i with linked := false } with
    currBytes := _, currItems := _, assoc := _ } it p
  unfold unlinkItem
  rw [he]
  by_cases hp : p = it
  · subst hp
    exact ⟨n, q, false, by simp [Store.modify]⟩
  · exact ⟨n, q, (s.mem p).linked, by simp [Store.modify, hp]⟩

/-- The repair of an item gives its chunk back, and the links of the chunk lead nowhere. -/
theorem prev_tailRepair {it : Ptr} (hl : (s.mem it).linked = true) (h1 : 1 ≤ (s.mem it).slabsClsid.val)
    (h2 : (s.mem it).slabsClsid.val ≤ cfg.slabclass.sizes.length) (hv : UInt32) :
    ((doItemUnlinkNolock cfg (s.modify it fun i => { i with refcount := 1 }) it hv).mem it).prev = none := by
  have hl' : ((s.modify it fun i => { i with refcount := 1 }).mem it).linked = true := by
    rw [modify_mem_self]
    exact hl
  rw [doItemUnlinkNolock_eq, if_pos hl']
  obtain ⟨n, q, l, he⟩ := unlinkItem_links (s.modify it fun i => { i with refcount := 1 }) it it hv
  rw [modify_mem_self] at he
  generalize unlinkItem (s.modify it fun i => { i with refcount := 1 }) it hv = t at *
  have h0 : ((refcountDecr cfg t it).mem it).refcount = 0 := by
    rw [refcountDecr, modify_mem_self, he]
    simp
  have hclass : ((refcountDecr cfg t it).mem it).slabsClsid = (s.mem it).slabsClsid := by
    rw [refcountDecr, modify_mem_self, he]
  rw [doItemRemove, if_pos h0, itemFree, hclass, slabsFree, if_neg (by omega)]
  simp [Store.modify]

theorem slabsClsid_range {c : SlabClasses} {size : Nat} (h : slabsClsid c size ≠ 0) :
    1 ≤ (slabsClsid c size).val ∧ (slabsClsid c size).val ≤ c.sizes.length := by
  unfold slabsClsid at *
  split at h
  · exact absurd rfl h
  · rename_i h0
    rw [if_neg h0]
    dsimp only at *
    split at h
    · rename_i hi
      rw [dif_pos hi]
      exact ⟨Nat.succ_pos _, hi⟩
    · exact absurd rfl h

end RamCube
