import RamCube.Lib.Run
import RamCube.Server.Text

/-! # Object caches (cache.c)

A cache keeps the objects that are freed and hands them out again. In a debug build an object
lies between two redzones: the pool, `malloc` and `free` know it by the start of the first one,
everybody else by the address behind that. -/
namespace RamCube

/-- The arguments of `cache_create`, and how cache.c is compiled. -/
structure CacheSettings where
  ndebug : Bool
  bufsize : Nat
  /-- `constructor` and `destructor` are not NULL -/
  hasConstructor : Bool
  hasDestructor : Bool

/-- `cache_t`, the memory around it, and what became of the pointers. -/
structure ObjectCache where
  /-- `ptr[0 .. freecurr)`, the last one first -/
  ptr : List Nat
  freetotal : Int
  cacheError : Int
  memory : Nat → UInt8
  /-- what `malloc` gave and `free` did not get back -/
  allocated : List Nat
  /-- the pointers that were handed out and not taken back -/
  live : List Nat
  /-- what the constructor was called with -/
  constructed : List Nat
  /-- the objects that `cache_alloc` made of what `malloc` gave -/
  made : List Nat
  /-- what the destructor was called with -/
  destroyed : List Nat

def initialPoolSize : Int := 64

def REDZONE_PATTERN : Nat := 0xdeadbeefcafebabe

/-- A byte of `redzone_pattern`, as it lies in memory. -/
def redzoneByte (i : Nat) : UInt8 := UInt8.ofNat (REDZONE_PATTERN / 256 ^ i)

def writeRedzone (memory : Nat → UInt8) (start a : Nat) : UInt8 :=
  if start ≤ a ∧ a < start + 8 then redzoneByte (a - start) else memory a

def isRedzone (memory : Nat → UInt8) (start : Nat) : Bool := (List.range 8).all fun i => memory (start + i) == redzoneByte i

namespace CacheSettings

variable (cfg : CacheSettings)

/-- `cache->bufsize` -/
def allocSize : Nat := if cfg.ndebug then cfg.bufsize else (cfg.bufsize + 2 * 8) % 2 ^ 64

def getObject (ptr : Nat) : Nat := if cfg.ndebug then ptr else ptr + 8

/-- The pointer that `cache_free` has behind its checks. -/
def getBase (ptr : Nat) : Nat := if cfg.ndebug then ptr else ptr - 8

/-- What `cache_free` finds at the redzones of an object. -/
def redzoneError (memory : Nat → UInt8) (ptr : Nat) : Int :=
  if cfg.ndebug then 0
  else if isRedzone memory (ptr + cfg.allocSize - 2 * 8) = false then 1
  else if isRedzone memory (ptr - 8) = false then -1
  else 0

end CacheSettings

/-- `cache->freetotal * 2` as a `size_t` -/
def newTotal (freetotal : Int) : Nat := (asInt (freetotal * 2) % 2 ^ 64).toNat

/-- `realloc` may fail, and does for more than `PTRDIFF_MAX` bytes. -/
def enlarges (freetotal : Int) (reallocOk : Bool) : Bool := reallocOk && decide (8 * newTotal freetotal % 2 ^ 64 < 2 ^ 63)

def cacheCreate (memory : Nat → UInt8) : ObjectCache := ⟨[], initialPoolSize, 0, memory, [], [], [], [], []⟩

namespace ObjectCache

variable (cfg : CacheSettings) (c : ObjectCache)

def freecurr : Int := c.ptr.length

/-- The end of `cache_alloc`. -/
def handOut (ret : Nat) : ObjectCache :=
  { c with
    live := cfg.getObject ret :: c.live
    memory := if cfg.ndebug then c.memory else
      writeRedzone (writeRedzone c.memory ret) (ret + 8 + cfg.allocSize - 2 * 8) }

/-- `cache_alloc`, with what `malloc` returns and whether the constructor returns 0. -/
def cacheAlloc (malloc : Option Nat) (built : Bool) : Option Nat × ObjectCache :=
  match c.ptr with
  | ret :: rest => (some (cfg.getObject ret), { c with ptr := rest }.handOut cfg ret)
  | [] =>
    match malloc with
    | none => (none, c)
    | some ret =>
      let object := cfg.getObject ret
      let c := if cfg.hasConstructor then { c with constructed := object :: c.constructed } else c
      -- a block that the constructor refuses goes back to `free` at once
      if cfg.hasConstructor ∧ built = false then (none, c)
      else (some object, { c with allocated := ret :: c.allocated, made := object :: c.made }.handOut cfg ret)

def cacheFree (ptr : Nat) (reallocOk : Bool) : ObjectCache :=
  if cfg.redzoneError c.memory ptr ≠ 0 then { c with cacheError := cfg.redzoneError c.memory ptr }
  else if c.freecurr < c.freetotal then { c with live := c.live.erase ptr, ptr := cfg.getBase ptr :: c.ptr }
  else if enlarges c.freetotal reallocOk then
    { c with
      live := c.live.erase ptr
      freetotal := asInt (newTotal c.freetotal)
      ptr := cfg.getBase ptr :: c.ptr }
  else
    { c with
      live := c.live.erase ptr
      destroyed := if cfg.hasDestructor then cfg.getBase ptr :: c.destroyed else c.destroyed
      allocated := c.allocated.erase (cfg.getBase ptr) }

/-- What `cache_destroy` does with a pointer of the pool. -/
def destroyLast (ptr : Nat) : ObjectCache :=
  { c with
    ptr := c.ptr.tail
    destroyed := if cfg.hasDestructor then cfg.getObject ptr :: c.destroyed else c.destroyed
    allocated := c.allocated.erase ptr }

def cacheDestroy : ObjectCache := c.ptr.foldl (destroyLast cfg) c

end ObjectCache

inductive CacheOp where
  | alloc (malloc : Option Nat) (built : Bool)
  | free (ptr : Nat) (reallocOk : Bool)
  | write (memory : Nat → UInt8)

/-- Two blocks of memory. -/
def BlocksApart (size p q : Nat) : Prop := p ≠ q ∧ (p + size ≤ q ∨ q + size ≤ p)

instance (size : Nat) : Std.Symm (BlocksApart size) := ⟨fun _ _ h => ⟨h.1.symm, h.2.symm⟩⟩

/-- Calls of `cache_alloc` and `cache_free`, between which memory is written to. `malloc` gives
no block that overlaps one it gave before and has not got back; only a pointer that was handed out
is freed. -/
inductive CacheStep (cfg : CacheSettings) (c : ObjectCache) : CacheOp → ObjectCache → Prop where
  | alloc (malloc : Option Nat) (built : Bool) : (∀ p ∈ malloc, ∀ q ∈ c.allocated, BlocksApart cfg.allocSize p q) →
      CacheStep cfg c (.alloc malloc built) (c.cacheAlloc cfg malloc built).2
  | free (ptr : Nat) (reallocOk : Bool) : ptr ∈ c.live → CacheStep cfg c (.free ptr reallocOk) (c.cacheFree cfg ptr reallocOk)
  | write (memory : Nat → UInt8) : CacheStep cfg c (.write memory) { c with memory := memory }

/-! ## What the calls do -/

/-- How a call of `cache_alloc` ends. -/
inductive AllocEnds (cfg : CacheSettings) (c : ObjectCache) (malloc : Option Nat) : Option Nat → ObjectCache → Prop where
  | pooled {ret : Nat} {rest : List Nat} : c.ptr = ret :: rest →
      AllocEnds cfg c malloc (some (cfg.getObject ret)) ({ c with ptr := rest }.handOut cfg ret)
  | exhausted : c.ptr = [] → AllocEnds cfg c malloc none c
  | refused {ret : Nat} : c.ptr = [] → malloc = some ret → cfg.hasConstructor = true →
      AllocEnds cfg c malloc none { c with constructed := cfg.getObject ret :: c.constructed }
  | made {ret : Nat} {constructed : List Nat} : c.ptr = [] → malloc = some ret →
      (constructed = if cfg.hasConstructor then cfg.getObject ret :: c.constructed else c.constructed) →
      AllocEnds cfg c malloc (some (cfg.getObject ret))
        ({ c with
          constructed := constructed
          allocated := ret :: c.allocated
          made := cfg.getObject ret :: c.made }.handOut cfg ret)

/-- How a call of `cache_free` ends. -/
inductive FreeEnds (cfg : CacheSettings) (c : ObjectCache) (ptr : Nat) (reallocOk : Bool) : ObjectCache → Prop where
  | overrun {error : Int} : error ≠ 0 → FreeEnds cfg c ptr reallocOk { c with cacheError := error }
  | pooled {freetotal : Int} : (c.freecurr < c.freetotal ∧ freetotal = c.freetotal ∨
        enlarges c.freetotal reallocOk = true ∧ freetotal = asInt (newTotal c.freetotal)) →
      FreeEnds cfg c ptr reallocOk
        { c with live := c.live.erase ptr, freetotal := freetotal, ptr := cfg.getBase ptr :: c.ptr }
  | released : cfg.redzoneError c.memory ptr = 0 → c.freetotal ≤ c.freecurr → enlarges c.freetotal reallocOk = false →
      FreeEnds cfg c ptr reallocOk
        { c with
          live := c.live.erase ptr
          destroyed := if cfg.hasDestructor then cfg.getBase ptr :: c.destroyed else c.destroyed
          allocated := c.allocated.erase (cfg.getBase ptr) }

section

variable {cfg : CacheSettings} {c t : ObjectCache}

theorem cacheAlloc_cases (malloc : Option Nat) (built : Bool) :
    AllocEnds cfg c malloc (c.cacheAlloc cfg malloc built).1 (c.cacheAlloc cfg malloc built).2 := by
  unfold ObjectCache.cacheAlloc
  split
  · exact .pooled ‹_›
  · rename_i hptr
    split
    · exact .exhausted hptr
    · rename_i ret
      dsimp only
      cases hcon : cfg.hasConstructor with
      | false =>
        rw [if_neg (by simp), if_neg (by simp)]
        exact .made hptr rfl (by simp [hcon])
      | true =>
        rw [if_pos rfl]
        cases built with
        | false => exact .refused hptr rfl hcon
        | true =>
          rw [if_neg (by simp)]
          exact .made hptr rfl (by simp [hcon])

theorem cacheFree_cases (ptr : Nat) (reallocOk : Bool) : FreeEnds cfg c ptr reallocOk (c.cacheFree cfg ptr reallocOk) := by
  unfold ObjectCache.cacheFree
  by_cases herror : cfg.redzoneError c.memory ptr ≠ 0
  · rw [if_pos herror]
    exact .overrun herror
  rw [if_neg herror]
  by_cases hroom : c.freecurr < c.freetotal
  · rw [if_pos hroom]
    exact .pooled (.inl ⟨hroom, rfl⟩)
  rw [if_neg hroom]
  cases hgrown : enlarges c.freetotal reallocOk with
  | true =>
    rw [if_pos rfl]
    exact .pooled (.inr ⟨hgrown, rfl⟩)
  | false => exact .released (not_not.mp herror) (not_lt.mp hroom) hgrown

/-- Where the product overflows, `realloc` is asked for more than there can be. -/
theorem enlarges_spec {n : Int} {reallocOk : Bool} (hn : 0 < n ∧ n < 2 ^ 31) (h : enlarges n reallocOk = true) :
    asInt (newTotal n) = 2 * n ∧ 2 * n < 2 ^ 31 := by
  have hbytes : 8 * newTotal n % 2 ^ 64 < 2 ^ 63 := of_decide_eq_true (Bool.and_eq_true_iff.mp h).2
  simp only [newTotal, asInt, Int.bmod_def] at *
  norm_num at *
  split at hbytes <;> split <;> omega

/-! ## The pool -/

theorem getObject_injective {p q : Nat} (h : cfg.getObject p = cfg.getObject q) : p = q := by
  unfold CacheSettings.getObject at h
  split at h <;> omega

@[simp] theorem getBase_getObject (p : Nat) : cfg.getBase (cfg.getObject p) = p := by
  unfold CacheSettings.getBase CacheSettings.getObject
  split <;> omega

/-- The pool and its users share out what was allocated. -/
structure PoolOk (cfg : CacheSettings) (c : ObjectCache) : Prop where
  apart : c.allocated.Pairwise (BlocksApart cfg.allocSize)
  nodup : c.ptr.Nodup
  owned : ∀ p ∈ c.ptr, p ∈ c.allocated
  once : c.live.Nodup
  handed : ∀ o ∈ c.live, ∃ p ∈ c.allocated, p ∉ c.ptr ∧ o = cfg.getObject p
  room : c.freecurr ≤ c.freetotal
  size : 0 < c.freetotal ∧ c.freetotal < 2 ^ 31

namespace PoolOk

theorem nodup_allocated (h : PoolOk cfg c) : c.allocated.Nodup := h.apart.imp fun hpq => hpq.1

theorem handOut (h : PoolOk cfg c) {p : Nat} (hp : p ∈ c.allocated) (hfree : p ∉ c.ptr) (hlive : cfg.getObject p ∉ c.live) :
    PoolOk cfg (c.handOut cfg p) := by
  refine { h with once := List.nodup_cons.mpr ⟨hlive, h.once⟩, handed := fun o ho => ?_ }
  rcases List.mem_cons.mp ho with rfl | ho
  · exact ⟨p, hp, hfree, rfl⟩
  · exact h.handed o ho

/-- What is in the pool, or not allocated, is not in use. -/
theorem not_live (h : PoolOk cfg c) {p : Nat} (hp : p ∈ c.ptr ∨ p ∉ c.allocated) : cfg.getObject p ∉ c.live := by
  intro hl
  obtain ⟨q, hq, hfree, he⟩ := h.handed _ hl
  obtain rfl := getObject_injective he
  exact hp.elim hfree fun hno => hno hq

theorem alloc {malloc result : Option Nat} (h : PoolOk cfg c) (ha : AllocEnds cfg c malloc result t)
    (hmalloc : ∀ p ∈ malloc, ∀ q ∈ c.allocated, BlocksApart cfg.allocSize p q) :
    PoolOk cfg t ∧ ∀ o ∈ result, o ∉ c.live := by
  cases ha with
  | @pooled ret rest hptr =>
    have hmem : ret ∈ c.ptr := hptr ▸ List.mem_cons_self
    have hsub : ∀ p ∈ rest, p ∈ c.ptr := fun p hp => hptr ▸ List.mem_cons_of_mem ret hp
    obtain ⟨hret, hrest⟩ := List.nodup_cons.mp (hptr ▸ h.nodup)
    have hlive := h.not_live (.inl hmem)
    have hlen : ({ c with ptr := rest } : ObjectCache).freecurr ≤ c.freetotal := by
      have hroom := h.room
      simp only [ObjectCache.freecurr, hptr, List.length_cons] at hroom ⊢
      omega
    have hpool : PoolOk cfg { c with ptr := rest } :=
      { h with
        nodup := hrest
        owned := fun p hp => h.owned p (hsub p hp)
        handed := fun o ho => by
          obtain ⟨p, hp, hfree, he⟩ := h.handed o ho
          exact ⟨p, hp, fun hm => hfree (hsub p hm), he⟩
        room := hlen }
    refine ⟨hpool.handOut (h.owned ret hmem) hret hlive, fun o ho => ?_⟩
    obtain rfl := Option.some.inj ho
    exact hlive
  | exhausted => exact ⟨h, nofun⟩
  | refused => exact ⟨{ h with }, nofun⟩
  | @made ret constructed hptr hm =>
    have happart := hmalloc ret hm
    have hnew : ret ∉ c.allocated := fun hmem => (happart ret hmem).1 rfl
    have hlive := h.not_live (.inr hnew)
    have hpool : PoolOk cfg { c with
        constructed := constructed
        allocated := ret :: c.allocated
        made := cfg.getObject ret :: c.made } :=
      { h with
        apart := List.pairwise_cons.mpr ⟨happart, h.apart⟩
        owned := fun p hp => List.mem_cons_of_mem ret (h.owned p hp)
        handed := fun o ho => by
          obtain ⟨p, hp, hfree, he⟩ := h.handed o ho
          exact ⟨p, List.mem_cons_of_mem ret hp, hfree, he⟩ }
    refine ⟨hpool.handOut List.mem_cons_self (fun hp => hnew (h.owned ret hp)) hlive, fun o ho => ?_⟩
    obtain rfl := Option.some.inj ho
    exact hlive

theorem free {ptr : Nat} {reallocOk : Bool} (h : PoolOk cfg c) (hl : ptr ∈ c.live) (hf : FreeEnds cfg c ptr reallocOk t) :
    PoolOk cfg t := by
  obtain ⟨p, hp, hfree, rfl⟩ := h.handed ptr hl
  -- a pointer that stays with its user is not the one that is freed
  have hother : ∀ o ∈ c.live.erase (cfg.getObject p), ∃ q ∈ c.allocated, q ∉ c.ptr ∧ q ≠ p ∧ o = cfg.getObject q := by
    intro o ho
    obtain ⟨hne, hmem⟩ := (List.Nodup.mem_erase_iff h.once).mp ho
    obtain ⟨q, hq, hqfree, rfl⟩ := h.handed o hmem
    exact ⟨q, hq, hqfree, fun he => hne (he ▸ rfl), rfl⟩
  cases hf with
  | overrun => exact { h with }
  | @pooled freetotal hroom =>
    have hgrown : c.freecurr < freetotal ∧ 0 < freetotal ∧ freetotal < 2 ^ 31 := by
      rcases hroom with ⟨hlt, he⟩ | ⟨henl, he⟩
      · rw [he]
        exact ⟨hlt, h.size⟩
      · obtain ⟨htwice, hlt⟩ := enlarges_spec h.size henl
        have hle := h.room
        have hpos := h.size.1
        rw [he, htwice]
        omega
    rw [getBase_getObject]
    exact { h with
      nodup := List.nodup_cons.mpr ⟨hfree, h.nodup⟩
      owned := fun q hq => (List.mem_cons.mp hq).elim (fun he => he ▸ hp) (h.owned q)
      once := h.once.erase _
      handed := fun o ho => by
        obtain ⟨q, hq, hqfree, hne, he⟩ := hother o ho
        exact ⟨q, hq, fun hm => (List.mem_cons.mp hm).elim hne hqfree, he⟩
      room := by
        have hlt := hgrown.1
        simp only [ObjectCache.freecurr, List.length_cons] at hlt ⊢
        omega
      size := hgrown.2 }
  | released =>
    rw [getBase_getObject]
    exact { h with
      apart := h.apart.sublist List.erase_sublist
      owned := fun q hq => (List.Nodup.mem_erase_iff h.nodup_allocated).mpr ⟨fun he => hfree (he ▸ hq), h.owned q hq⟩
      once := h.once.erase _
      handed := fun o ho => by
        obtain ⟨q, hq, hqfree, hne, he⟩ := hother o ho
        exact ⟨q, (List.Nodup.mem_erase_iff h.nodup_allocated).mpr ⟨hne, hq⟩, hqfree, he⟩ }

theorem step (h : PoolOk cfg c) {op : CacheOp} (hs : CacheStep cfg c op t) : PoolOk cfg t := by
  cases hs with
  | alloc malloc built hmalloc => exact (h.alloc (cacheAlloc_cases malloc built) hmalloc).1
  | free ptr reallocOk hl => exact h.free hl (cacheFree_cases ptr reallocOk)
  | write memory => exact { h with }

end PoolOk

theorem poolOk_create (cfg : CacheSettings) (memory : Nat → UInt8) : PoolOk cfg (cacheCreate memory) where
  apart := .nil
  nodup := List.nodup_nil
  owned := nofun
  once := List.nodup_nil
  handed := nofun
  room := (by decide : (0 : Int) ≤ 64)
  size := (by decide : (0 : Int) < 64 ∧ (64 : Int) < 2 ^ 31)

/-! ## Constructors and destructors -/

/-- An object is destroyed at most as often as it was made, which is at most as often as the
constructor was called with it. -/
structure DestroyedOnce (cfg : CacheSettings) (c : ObjectCache) : Prop where
  made : ∀ o, c.destroyed.count o ≤ c.made.count o
  constructed : cfg.hasConstructor = true → ∀ o, c.destroyed.count o ≤ c.constructed.count o

/-- What is still allocated was made once more than it was destroyed. -/
structure Accounted (cfg : CacheSettings) (c : ObjectCache) : Prop where
  destroyed : ∀ o, c.destroyed.count o + (c.allocated.map cfg.getObject).count o ≤ c.made.count o
  constructed : cfg.hasConstructor = true → ∀ o, c.made.count o ≤ c.constructed.count o

/-- A debug build that has a destructor finds room in the pool for what is freed. -/
def FindsRoom (cfg : CacheSettings) (c : ObjectCache) : CacheOp → Prop
  | .free ptr reallocOk => cfg.ndebug = false → cfg.hasDestructor = true → cfg.redzoneError c.memory ptr = 0 →
    c.freetotal ≤ c.freecurr → enlarges c.freetotal reallocOk = true
  | _ => True

theorem accounted_create (cfg : CacheSettings) (memory : Nat → UInt8) : Accounted cfg (cacheCreate memory) :=
  ⟨fun _ => Nat.le_refl 0, fun _ _ => Nat.le_refl 0⟩

namespace Accounted

theorem destroyedOnce (h : Accounted cfg c) : DestroyedOnce cfg c := by
  have hmade : ∀ o, c.destroyed.count o ≤ c.made.count o := fun o => by
    have hle := h.destroyed o
    omega
  exact ⟨hmade, fun hcon o => Nat.le_trans (hmade o) (h.constructed hcon o)⟩

/-- A block goes back to `free`, the destructor having been called with its object, if at all. -/
theorem release (h : Accounted cfg c) {p : Nat} (hp : p ∈ c.allocated) (o : Nat) :
    (if cfg.hasDestructor then cfg.getObject p :: c.destroyed else c.destroyed).count o +
      ((c.allocated.erase p).map cfg.getObject).count o ≤ c.made.count o := by
  have hle := h.destroyed o
  have hcount := ((List.perm_cons_erase hp).map cfg.getObject).count_eq o
  rw [List.map_cons, List.count_cons] at hcount
  split
  · rw [List.count_cons]
    omega
  · omega

theorem alloc {malloc result : Option Nat} (h : Accounted cfg c) (ha : AllocEnds cfg c malloc result t) : Accounted cfg t := by
  cases ha with
  | pooled | exhausted => exact ⟨h.destroyed, h.constructed⟩
  | refused =>
    exact ⟨h.destroyed, fun hcon o => Nat.le_trans (h.constructed hcon o) (List.count_le_count_cons)⟩
  | @made ret constructed hptr hm hc =>
    refine ⟨fun o => ?_, fun hcon o => ?_⟩
    · have hle := h.destroyed o
      simp only [ObjectCache.handOut, List.map_cons, List.count_cons]
      omega
    · have hle := h.constructed hcon o
      rw [if_pos hcon] at hc
      simp only [ObjectCache.handOut, hc, List.count_cons]
      omega

theorem free {ptr : Nat} {reallocOk : Bool} (h : Accounted cfg c) (hp : PoolOk cfg c) (hl : ptr ∈ c.live)
    (hroom : FindsRoom cfg c (.free ptr reallocOk)) (hf : FreeEnds cfg c ptr reallocOk t) : Accounted cfg t := by
  obtain ⟨p, hmem, _, rfl⟩ := hp.handed ptr hl
  cases hf with
  | overrun | pooled => exact ⟨h.destroyed, h.constructed⟩
  | released hok hfull hsmall =>
    have hbase : (if cfg.hasDestructor then cfg.getBase (cfg.getObject p) :: c.destroyed else c.destroyed) =
        if cfg.hasDestructor then cfg.getObject p :: c.destroyed else c.destroyed := by
      cases hdes : cfg.hasDestructor with
      | false => rfl
      | true =>
        cases hdebug : cfg.ndebug with
        | false =>
          have henl := hroom hdebug hdes hok hfull
          rw [hsmall] at henl
          cases henl
        | true => simp [CacheSettings.getBase, CacheSettings.getObject, hdebug]
    rw [hbase, getBase_getObject]
    exact ⟨h.release hmem, h.constructed⟩

theorem step (h : Accounted cfg c) (hp : PoolOk cfg c) {op : CacheOp} (hroom : FindsRoom cfg c op) (hs : CacheStep cfg c op t) :
    Accounted cfg t := by
  cases hs with
  | alloc malloc built => exact h.alloc (cacheAlloc_cases malloc built)
  | free ptr reallocOk hl => exact h.free hp hl hroom (cacheFree_cases ptr reallocOk)
  | write memory => exact ⟨h.destroyed, h.constructed⟩

theorem destroy {ps : List Nat} (h : Accounted cfg c) (hnd : c.allocated.Nodup) (hps : ps.Nodup)
    (hmem : ∀ p ∈ ps, p ∈ c.allocated) : Accounted cfg (ps.foldl (ObjectCache.destroyLast cfg) c) := by
  induction ps generalizing c with
  | nil => exact h
  | cons p ps ih =>
    obtain ⟨hp, hps⟩ := List.nodup_cons.mp hps
    refine ih ⟨h.release (hmem p List.mem_cons_self), h.constructed⟩ (hnd.erase p) hps fun q hq => ?_
    exact (List.Nodup.mem_erase_iff hnd).mpr ⟨fun he => hp (he ▸ hq), hmem q (List.mem_cons_of_mem p hq)⟩

end Accounted

theorem destroy_pool (ps : List Nat) (h : c.ptr = ps) : (ps.foldl (ObjectCache.destroyLast cfg) c).ptr = [] ∧
    (ps.foldl (ObjectCache.destroyLast cfg) c).freetotal = c.freetotal := by
  induction ps generalizing c with
  | nil => exact ⟨h, rfl⟩
  | cons p ps ih => exact ih (by rw [ObjectCache.destroyLast, h]; rfl)

/-- What was made is still allocated. -/
def MadeAllocated (cfg : CacheSettings) (c : ObjectCache) : Prop := ∀ o ∈ c.made, ∃ p ∈ c.allocated, o = cfg.getObject p

theorem MadeAllocated.alloc {malloc result : Option Nat} (h : MadeAllocated cfg c) (ha : AllocEnds cfg c malloc result t) :
    MadeAllocated cfg t := by
  cases ha with
  | pooled | exhausted | refused => exact h
  | @made ret constructed =>
    intro o ho
    rcases List.mem_cons.mp ho with rfl | ho
    · exact ⟨ret, List.mem_cons_self, rfl⟩
    · obtain ⟨p, hp, he⟩ := h o ho
      exact ⟨p, List.mem_cons_of_mem ret hp, he⟩

/-- A debug build with a destructor that finds room for what is freed releases nothing. -/
theorem MadeAllocated.step {op : CacheOp} (h : MadeAllocated cfg c) (hdebug : cfg.ndebug = false)
    (hdes : cfg.hasDestructor = true) (hroom : FindsRoom cfg c op) (hs : CacheStep cfg c op t) : MadeAllocated cfg t := by
  cases hs with
  | write memory => exact h
  | alloc malloc built => exact h.alloc (cacheAlloc_cases malloc built)
  | free ptr reallocOk hl =>
    have hf := @cacheFree_cases cfg c ptr reallocOk
    generalize c.cacheFree cfg ptr reallocOk = t at hf
    cases hf with
    | overrun | pooled => exact h
    | released hok hfull hsmall =>
      have henl := hroom hdebug hdes hok hfull
      rw [hsmall] at henl
      cases henl

/-- Where there is no room, the destructor is called with a pointer that is no object. -/
theorem not_destroyedOnce {memory : Nat → UInt8} {ops : List CacheOp} {op : CacheOp} (hsize : cfg.bufsize + 2 * 8 < 2 ^ 64)
    (hr : Run (Guarded (FindsRoom cfg) (CacheStep cfg)) (cacheCreate memory) ops c) (hpool : PoolOk cfg c)
    (hs : CacheStep cfg c op t) (hno : ¬FindsRoom cfg c op) : ¬DestroyedOnce cfg t := by
  intro honce
  cases hs with
  | alloc | write => exact hno trivial
  | free ptr reallocOk hl =>
    simp only [FindsRoom, Classical.not_imp] at hno
    obtain ⟨hdebug, hdes, hok, hfull, hsmall⟩ := hno
    obtain ⟨p, hp, _, rfl⟩ := hpool.handed ptr hl
    have hdestroyed : (c.cacheFree cfg (cfg.getObject p) reallocOk).destroyed = p :: c.destroyed ∧
        (c.cacheFree cfg (cfg.getObject p) reallocOk).made = c.made := by
      rw [ObjectCache.cacheFree, if_neg (not_not.mpr hok), if_neg (not_lt.mpr hfull), if_neg hsmall, hdes, getBase_getObject]
      exact ⟨rfl, rfl⟩
    have hcount := honce.made p
    rw [hdestroyed.1, hdestroyed.2, List.count_cons_self] at hcount
    have hmade : MadeAllocated cfg c := hr.invariant_of_guard (I := MadeAllocated cfg)
      (fun _ _ _ hi hroom hs => hi.step hdebug hdes hroom hs) nofun
    obtain ⟨q, hq, he⟩ := hmade p (List.count_pos_iff.mp (by omega))
    -- the block behind the object `p` would start inside that object
    have hobj : cfg.getObject q = q + 8 := by simp [CacheSettings.getObject, hdebug]
    have hblock : cfg.allocSize = cfg.bufsize + 2 * 8 := by
      simp only [CacheSettings.allocSize, hdebug, Bool.false_eq_true, if_false]
      exact Nat.mod_eq_of_lt hsize
    obtain ⟨_, hsep⟩ := hpool.apart.forall hp hq (by omega)
    omega

/-- A pointer that is in use is never handed out, and the pool stays inside its array. As long
as a debug build finds room for all that is freed, and always in a release build, the destructor
is called with objects that the constructor made, once each, and no longer. -/
theorem cache_sound {memory : Nat → UInt8} {ops : List CacheOp} (hr : Run (CacheStep cfg) (cacheCreate memory) ops c) :
    (∀ malloc built t, CacheStep cfg c (.alloc malloc built) t → ∀ o ∈ (c.cacheAlloc cfg malloc built).1, o ∉ c.live) ∧
      c.freecurr ≤ c.freetotal ∧ (c.cacheDestroy cfg).freecurr ≤ (c.cacheDestroy cfg).freetotal ∧
      (Run (Guarded (FindsRoom cfg) (CacheStep cfg)) (cacheCreate memory) ops c →
        DestroyedOnce cfg c ∧ DestroyedOnce cfg (c.cacheDestroy cfg) ∧
          (cfg.bufsize + 2 * 8 < 2 ^ 64 → ∀ op t, CacheStep cfg c op t → (DestroyedOnce cfg t ↔ FindsRoom cfg c op))) := by
  have hpool : PoolOk cfg c := hr.invariant (I := PoolOk cfg) (fun _ _ _ hi hs => hi.step hs) (poolOk_create cfg memory)
  refine ⟨fun malloc built t hs => ?_, hpool.room, ?_, fun hg => ?_⟩
  · cases hs with
    | alloc _ _ hmalloc => exact (hpool.alloc (cacheAlloc_cases malloc built) hmalloc).2
  · obtain ⟨hptr, hsize⟩ := @destroy_pool cfg c c.ptr rfl
    rw [ObjectCache.cacheDestroy, ObjectCache.freecurr, hptr, hsize]
    exact Int.le_of_lt hpool.size.1
  · have hkeeps : ∀ s op t, PoolOk cfg s ∧ Accounted cfg s → FindsRoom cfg s op → CacheStep cfg s op t →
        PoolOk cfg t ∧ Accounted cfg t := fun s op t hi hroom hs => ⟨hi.1.step hs, hi.2.step hi.1 hroom hs⟩
    have hacc := (hg.invariant_of_guard (I := fun c => PoolOk cfg c ∧ Accounted cfg c) hkeeps
      ⟨poolOk_create cfg memory, accounted_create cfg memory⟩).2
    refine ⟨hacc.destroyedOnce, (hacc.destroy hpool.nodup_allocated hpool.nodup hpool.owned).destroyedOnce,
      fun hsize op t hs => ⟨fun honce => ?_, fun hroom => (hacc.step hpool hroom hs).destroyedOnce⟩⟩
    by_contra hno
    exact not_destroyedOnce hsize hg hpool hs hno honce

end

/-! ## A pool that cannot grow -/

/-- A debug build with a constructor and a destructor, for objects of 24 bytes. -/
def debugSettings : CacheSettings := ⟨false, 24, true, true⟩

/-- Objects are taken one after another, each from a block of its own. -/
def takeObjects : Nat → ObjectCache
  | 0 => cacheCreate fun _ => 0
  | n + 1 => ((takeObjects n).cacheAlloc debugSettings (some (4096 * (n + 1))) true).2

/-- The memory once the users have written zeros to their objects. -/
def zeroedObjects (a : Nat) : UInt8 :=
  if a % 4096 < 8 then redzoneByte (a % 4096)
  else if 32 ≤ a % 4096 ∧ a % 4096 < 40 then redzoneByte (a % 4096 - 32)
  else 0

/-- They are freed, and `realloc` fails. -/
def freeObjects (n : Nat) : Nat → ObjectCache
  | 0 => { takeObjects n with memory := zeroedObjects }
  | k + 1 => (freeObjects n k).cacheFree debugSettings (4096 * (k + 1) + 8) false

def takeOps (n : Nat) : List CacheOp := (List.range n).map fun k => .alloc (some (4096 * (k + 1))) true

def freeOps (n : Nat) : List CacheOp := (List.range n).map fun k => .free (4096 * (k + 1) + 8) false

/-- The blocks of one run do not overlap, and in `freeObjects` what is freed is in use. -/
def FreesTaken (n : Nat) : Prop := (∀ k < n, ∀ q ∈ (takeObjects k).allocated, 4096 * (k + 1) ≠ q ∧
    (4096 * (k + 1) + 40 ≤ q ∨ q + 40 ≤ 4096 * (k + 1))) ∧
  ∀ k < n, 4096 * (k + 1) + 8 ∈ (freeObjects n k).live

theorem takeObjects_run {n k : Nat} (h : FreesTaken n) (hk : k ≤ n) :
    Run (Guarded (FindsRoom debugSettings) (CacheStep debugSettings)) (cacheCreate fun _ => 0) (takeOps k) (takeObjects k) := by
  induction k with
  | zero => exact .nil _
  | succ k ih =>
    rw [takeOps, List.range_succ, List.map_append]
    refine (ih (Nat.le_of_succ_le hk)).append (.single ⟨trivial, .alloc _ _ fun p hp q hq => ?_⟩)
    obtain rfl := Option.some.inj hp
    exact h.1 k hk q hq

theorem freeObjects_run {n k : Nat} (h : FreesTaken n) (hk : k ≤ n) :
    Run (CacheStep debugSettings) (freeObjects n 0) (freeOps k) (freeObjects n k) := by
  induction k with
  | zero => exact .nil _
  | succ k ih =>
    rw [freeOps, List.range_succ, List.map_append]
    exact (ih (Nat.le_of_succ_le hk)).append (.single (.free _ false (h.2 k hk)))

theorem cache_sound_reused : (∀ malloc built t, CacheStep debugSettings (freeObjects 1 1) (.alloc malloc built) t →
      ∀ o ∈ ((freeObjects 1 1).cacheAlloc debugSettings malloc built).1, o ∉ (freeObjects 1 1).live) ∧
    (freeObjects 1 1).freecurr ≤ (freeObjects 1 1).freetotal ∧ DestroyedOnce debugSettings (freeObjects 1 1) ∧
    DestroyedOnce debugSettings ((freeObjects 1 1).cacheDestroy debugSettings) := by
  have htaken : FreesTaken 1 := by
    unfold FreesTaken
    decide +kernel
  have hr : Run (Guarded (FindsRoom debugSettings) (CacheStep debugSettings)) (cacheCreate fun _ => 0)
      (takeOps 1 ++ [.write zeroedObjects, .free 4104 false]) (freeObjects 1 1) :=
    (takeObjects_run htaken (Nat.le_refl 1)).append (.cons ⟨trivial, .write zeroedObjects⟩
      (.single ⟨fun _ _ _ hfull => absurd hfull (by decide), .free 4104 false (htaken.2 0 Nat.one_pos)⟩))
  obtain ⟨hlive, hroom, _, honce⟩ := cache_sound hr.unguard
  obtain ⟨hnow, hend, _⟩ := honce hr
  exact ⟨hlive, hroom, hnow, hend⟩

/-- Of 65 objects that are freed while `realloc` fails, the last goes to the destructor by the
address of its block, which the constructor has never seen. -/
theorem block_destroyed : ∃ ops c, Run (CacheStep debugSettings) (cacheCreate fun _ => 0) ops c ∧
    266240 ∈ (c.cacheDestroy debugSettings).destroyed ∧ 266240 ∉ (c.cacheDestroy debugSettings).constructed := by
  have h : FreesTaken 65 ∧ 266240 ∈ ((freeObjects 65 65).cacheDestroy debugSettings).destroyed ∧
      266240 ∉ ((freeObjects 65 65).cacheDestroy debugSettings).constructed := by
    unfold FreesTaken
    decide +kernel
  exact ⟨_, _, ((takeObjects_run h.1 (Nat.le_refl 65)).unguard.append (.single (.write zeroedObjects))).append
    (freeObjects_run h.1 (Nat.le_refl 65)), h.2⟩

end RamCube
