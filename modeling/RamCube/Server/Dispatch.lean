import Mathlib.Algebra.Order.BigOperators.Group.Finset
import RamCube.Lib.Chain
import RamCube.Lib.Run
import RamCube.Server.Conn

/-! # Handing connections to the workers (thread.c)

The dispatcher puts a connection on the queue of a worker and writes a byte to its pipe; for each
such byte the worker takes one connection. The items of the queues come from a free list that
all threads use. A step is what one thread does between two points where another can see it: a
section under a lock, a `malloc`, a byte of a pipe, or writes to an item of its own. -/
namespace RamCube

def ITEMS_PER_ALLOC : Nat := 64

/-- What `dispatch_conn_new` is told about a connection. -/
structure ConnRequest where
  sfd : Int
  initState : ConnState
  eventFlags : Int
  readBufferSize : Int
  transport : Transport

/-- `CQ_ITEM`; an address counts items, as `&item[i]` does. -/
structure CqItem where
  request : ConnRequest
  next : Option Nat

/-- `CQ` -/
structure Cq where
  head : Option Nat
  tail : Option Nat

/-- The bytes on a pipe: `c`, and `l` or `g` for a change of the item locks. -/
inductive PipeByte where
  | conn
  | lockType (granular : Bool)
deriving DecidableEq

/-- Where the dispatcher is in `dispatch_conn_new` of some connection; `n + 1` is `settings.num_threads`. -/
inductive Dispatching (n : Nat) where
  | idle
  | noItem (request : ConnRequest)
  | block (request : ConnRequest) (item : Nat)
  | got (request : ConnRequest) (item : Nat)
  | filled (tid : Fin (n + 1)) (item : Nat)
  | pushed (tid : Fin (n + 1))

/-- Where a worker is in `thread_libevent_process`. -/
inductive Processing where
  | idle
  | woken
  | popped (item : Nat)
  | served (item : Nat)

structure Threads (n : Nat) where
  /-- the items that were allocated -/
  mem : Nat → Option CqItem
  newConnQueue : Fin (n + 1) → Cq
  pipe : Fin (n + 1) → List PipeByte
  cqiFreelist : Option Nat
  lastThread : Int
  dispatcher : Dispatching n
  worker : Fin (n + 1) → Processing
  /-- the connections by the worker they were assigned to, in the order of the calls -/
  assigned : List (Fin (n + 1) × ConnRequest)
  /-- what `conn_new` was called with -/
  taken : Fin (n + 1) → List ConnRequest

inductive ThreadEvent (n : Nat) where
  | call (request : ConnRequest)
  | malloc (item : Nat) (memory : Nat → CqItem)
  | refill
  | assign
  | push
  | notify
  | lockType (w : Fin (n + 1)) (granular : Bool)
  | wake (w : Fin (n + 1))
  | pop (w : Fin (n + 1))
  | connNew (w : Fin (n + 1))
  | free (w : Fin (n + 1))

namespace Threads

variable {n : Nat}

def setNext (s : Threads n) (item : Nat) (next : Option Nat) : Threads n :=
  { s with mem := Function.update s.mem item ((s.mem item).map fun i => { i with next := next }) }

/-- `cqi_new` where the free list has an item. -/
def popFreelist (s : Threads n) (item : Nat) : Threads n :=
  { s with cqiFreelist := (s.mem item).bind CqItem.next }

/-- The new items `item[1 ..]` linked together, except the last. -/
def linkBlock (item : Nat) (memory : Nat → CqItem) (mem : Nat → Option CqItem) (p : Nat) : Option CqItem :=
  if item ≤ p ∧ p < item + ITEMS_PER_ALLOC then
    let i := p - item
    some (if 1 ≤ i ∧ i < ITEMS_PER_ALLOC - 1 then { memory i with next := some (p + 1) } else memory i)
  else mem p

/-- The new items go to the free list, except the first. -/
def refill (s : Threads n) (item : Nat) : Threads n :=
  { s.setNext (item + (ITEMS_PER_ALLOC - 1)) s.cqiFreelist with cqiFreelist := some (item + 1) }

/-- `(last_thread + 1) % settings.num_threads` -/
def nextThread (s : Threads n) : Fin (n + 1) := Fin.ofNat (n + 1) ((s.lastThread + 1) % (n + 1 : Nat)).toNat

def fill (s : Threads n) (item : Nat) (request : ConnRequest) : Threads n :=
  { s with mem := Function.update s.mem item ((s.mem item).map fun i => { i with request := request }) }

def setQueue (s : Threads n) (w : Fin (n + 1)) (cq : Cq) : Threads n :=
  { s with newConnQueue := Function.update s.newConnQueue w cq }

/-- `cq_push` -/
def cqPush (s : Threads n) (w : Fin (n + 1)) (item : Nat) : Threads n :=
  let s := s.setNext item none
  match (s.newConnQueue w).tail with
  | none => s.setQueue w ⟨some item, some item⟩
  | some tail => (s.setNext tail (some item)).setQueue w ⟨(s.newConnQueue w).head, some item⟩

/-- `cq_pop` where the queue has an item. -/
def cqPop (s : Threads n) (w : Fin (n + 1)) (item : Nat) : Threads n :=
  let head := (s.mem item).bind CqItem.next
  s.setQueue w ⟨head, if head = none then none else (s.newConnQueue w).tail⟩

/-- `cqi_free` -/
def cqiFree (s : Threads n) (item : Nat) : Threads n :=
  { s.setNext item s.cqiFreelist with cqiFreelist := some item }

def write (s : Threads n) (w : Fin (n + 1)) (b : PipeByte) : Threads n :=
  { s with pipe := Function.update s.pipe w (s.pipe w ++ [b]) }

def setWorker (s : Threads n) (w : Fin (n + 1)) (at' : Processing) : Threads n :=
  { s with worker := Function.update s.worker w at' }

/-- Before the first connection. -/
def start (n : Nat) : Threads n where
  mem _ := none
  newConnQueue _ := ⟨none, none⟩
  pipe _ := []
  cqiFreelist := none
  lastThread := -1
  dispatcher := .idle
  worker _ := .idle
  assigned := []
  taken _ := []

end Threads

/-- One step of one thread. -/
inductive ThreadStep {n : Nat} (s : Threads n) : ThreadEvent n → Threads n → Prop where
  | callFree {request : ConnRequest} {item : Nat} : s.dispatcher = .idle → s.cqiFreelist = some item →
      ThreadStep s (.call request) { s.popFreelist item with dispatcher := .got request item }
  | callEmpty {request : ConnRequest} : s.dispatcher = .idle → s.cqiFreelist = none →
      ThreadStep s (.call request) { s with dispatcher := .noItem request }
  | malloc {request : ConnRequest} {item : Nat} {memory : Nat → CqItem} : s.dispatcher = .noItem request →
      (∀ p, item ≤ p → p < item + ITEMS_PER_ALLOC → s.mem p = none) →
      ThreadStep s (.malloc item memory)
        { s with mem := Threads.linkBlock item memory s.mem, dispatcher := .block request item }
  | refill {request : ConnRequest} {item : Nat} : s.dispatcher = .block request item →
      ThreadStep s .refill { s.refill item with dispatcher := .got request item }
  | assign {request : ConnRequest} {item : Nat} : s.dispatcher = .got request item →
      ThreadStep s .assign { s.fill item request with
        lastThread := (s.nextThread.val : Int)
        dispatcher := .filled s.nextThread item
        assigned := s.assigned ++ [(s.nextThread, request)] }
  | push {tid : Fin (n + 1)} {item : Nat} : s.dispatcher = .filled tid item →
      ThreadStep s .push { s.cqPush tid item with dispatcher := .pushed tid }
  | notify {tid : Fin (n + 1)} : s.dispatcher = .pushed tid →
      ThreadStep s .notify { s.write tid .conn with dispatcher := .idle }
  | lockType (w : Fin (n + 1)) (granular : Bool) : ThreadStep s (.lockType w granular) (s.write w (.lockType granular))
  | wake {w : Fin (n + 1)} {rest : List PipeByte} : s.worker w = .idle → s.pipe w = .conn :: rest →
      ThreadStep s (.wake w) { s.setWorker w .woken with pipe := Function.update s.pipe w rest }
  | wakeLockType {w : Fin (n + 1)} {granular : Bool} {rest : List PipeByte} : s.worker w = .idle →
      s.pipe w = .lockType granular :: rest →
      ThreadStep s (.wake w) { s with pipe := Function.update s.pipe w rest }
  | pop {w : Fin (n + 1)} {item : Nat} : s.worker w = .woken → (s.newConnQueue w).head = some item →
      ThreadStep s (.pop w) ((s.cqPop w item).setWorker w (.popped item))
  | popEmpty {w : Fin (n + 1)} : s.worker w = .woken → (s.newConnQueue w).head = none →
      ThreadStep s (.pop w) (s.setWorker w .idle)
  | connNew {w : Fin (n + 1)} {item : Nat} {i : CqItem} : s.worker w = .popped item → s.mem item = some i →
      ThreadStep s (.connNew w) { s.setWorker w (.served item) with
        taken := Function.update s.taken w (s.taken w ++ [i.request]) }
  | free {w : Fin (n + 1)} {item : Nat} : s.worker w = .served item →
      ThreadStep s (.free w) ((s.cqiFree item).setWorker w .idle)

/-! ## Where an item is -/

/-- The items that the dispatcher alone uses. -/
def Dispatching.items {n : Nat} : Dispatching n → List Nat
  | .block _ item => (List.range ITEMS_PER_ALLOC).map (item + ·)
  | .got _ item => [item]
  | .filled _ item => [item]
  | _ => []

/-- The connection that is not yet assigned. -/
def Dispatching.request {n : Nat} : Dispatching n → List ConnRequest
  | .noItem request => [request]
  | .block request _ => [request]
  | .got request _ => [request]
  | _ => []

def Dispatching.filledFor {n : Nat} (w : Fin (n + 1)) : Dispatching n → List Nat
  | .filled tid item => if tid = w then [item] else []
  | _ => []

/-- The items that a worker alone uses. -/
def Processing.items : Processing → List Nat
  | .popped item => [item]
  | .served item => [item]
  | _ => []

def Processing.unserved : Processing → List Nat
  | .popped item => [item]
  | _ => []

def Processing.awake : Processing → Nat
  | .woken => 1
  | _ => 0

/-- Whether a queue has an item more than its pipe tells. -/
def Dispatching.unannounced {n : Nat} (w : Fin (n + 1)) : Dispatching n → Nat
  | .pushed tid => if tid = w then 1 else 0
  | _ => 0

inductive Place (n : Nat) where
  | freelist
  | queue (w : Fin (n + 1))
  | dispatcher
  | worker (w : Fin (n + 1))

namespace Threads

variable {n : Nat} (s : Threads n)

/-- The lists are followed through the memory. -/
def IsAt (item : Nat) : Place n → Prop
  | .freelist => ∃ cs, Chain s.mem CqItem.next s.cqiFreelist cs ∧ item ∈ cs.map Prod.fst
  | .queue w => ∃ cs, Chain s.mem CqItem.next (s.newConnQueue w).head cs ∧ item ∈ cs.map Prod.fst
  | .dispatcher => item ∈ s.dispatcher.items
  | .worker w => item ∈ (s.worker w).items

def assignedTo (w : Fin (n + 1)) : List ConnRequest := (s.assigned.filter fun a => a.1 == w).map Prod.snd

/-- The request in an item. -/
def requestOf (item : Nat) : List ConnRequest := ((s.mem item).map CqItem.request).toList

end Threads

/-- The lists, and one owner for each item. -/
structure Owned {n : Nat} (s : Threads n) (free : List (Nat × CqItem)) (q : Fin (n + 1) → List (Nat × CqItem))
    (owner : Nat → Option (Place n)) : Prop where
  freelist : Chain s.mem CqItem.next s.cqiFreelist free
  queue : ∀ w, Chain s.mem CqItem.next (s.newConnQueue w).head (q w)
  tail : ∀ w, (s.newConnQueue w).tail = (q w).getLast?.map Prod.fst
  ownFree : ∀ c ∈ free, owner c.1 = some .freelist
  ownQueue : ∀ w, ∀ c ∈ q w, owner c.1 = some (.queue w)
  ownDispatcher : ∀ p ∈ s.dispatcher.items, owner p = some .dispatcher ∧ s.mem p ≠ none
  ownWorker : ∀ w, ∀ p ∈ (s.worker w).items, owner p = some (.worker w) ∧ s.mem p ≠ none
  block : ∀ request item, s.dispatcher = .block request item → ∀ i, 1 ≤ i → i < ITEMS_PER_ALLOC - 1 →
    (s.mem (item + i)).bind CqItem.next = some (item + i + 1)

/-- The bytes on the pipes, and the connections at each worker. -/
structure Counted {n : Nat} (s : Threads n) (q : Fin (n + 1) → List (Nat × CqItem)) : Prop where
  bytes : ∀ w, (q w).length = (s.pipe w).count .conn + (s.worker w).awake + s.dispatcher.unannounced w
  order : ∀ w, s.assignedTo w = s.taken w ++ (s.worker w).unserved.flatMap s.requestOf ++ (q w).map (fun c => c.2.request) ++
    (s.dispatcher.filledFor w).flatMap s.requestOf
  turn : s.nextThread = Fin.ofNat (n + 1) s.assigned.length
  rotates : s.assigned.map Prod.fst = (List.range s.assigned.length).map (Fin.ofNat (n + 1))

/-! ## What a step keeps of the lists -/

section

variable {n : Nat} {s : Threads n} {free : List (Nat × CqItem)} {q : Fin (n + 1) → List (Nat × CqItem)}
  {owner : Nat → Option (Place n)} {item p : Nat} {request : ConnRequest} {w tid : Fin (n + 1)}

theorem update_owner {a b : Place n} {x : Option (Place n)} (hi : owner item = some a) (hp : owner p = some b) (hne : a ≠ b) :
    Function.update owner item x p = some b := by
  have hpi : p ≠ item := fun he => hne (Option.some.inj (hi.symm.trans (he ▸ hp)))
  rw [Function.update_of_ne hpi, hp]

/-- An update that a function does not see. -/
theorem update_same {ι β γ : Type} [DecidableEq ι] {f : ι → β} {g : β → γ} {a : β} {i j : ι} (h : g a = g (f i)) :
    g (Function.update f i a j) = g (f j) := by
  by_cases hj : j = i
  · rw [hj, Function.update_self, h]
  · rw [Function.update_of_ne hj]

theorem unserved_items {at' : Processing} (hp : p ∈ at'.unserved) : p ∈ at'.items := by
  cases at' with
  | popped => exact hp
  | idle | woken | served => cases hp

theorem ne_block {d : Dispatching n} (h : d.items.length ≤ 1) : d ≠ .block request item := by
  intro hd
  rw [hd, Dispatching.items, List.length_map, List.length_range] at h
  exact absurd h (by decide)

/-- Two free lists or queues that are linked one behind the other. -/
theorem block_chain {mem : Nat → Option CqItem} {first : Option Nat} {cs : List (Nat × CqItem)} {a k : Nat}
    (hcells : ∀ i, i < k → (mem (a + i)).bind CqItem.next = some (a + i + 1))
    (hlast : ∃ c, mem (a + k) = some c ∧ c.next = first) (h : Chain mem CqItem.next first cs) :
    ∃ ds, Chain mem CqItem.next (some a) (ds ++ cs) ∧ ∀ d ∈ ds, a ≤ d.1 ∧ d.1 ≤ a + k := by
  induction k generalizing a with
  | zero =>
    obtain ⟨c, hc, hnext⟩ := hlast
    exact ⟨[(a, c)], ⟨rfl, hc, hnext.symm ▸ h⟩, by simp⟩
  | succ k ih =>
    have hfirst := hcells 0 (by omega)
    rw [Nat.add_zero] at hfirst
    obtain ⟨c, hc, hnext⟩ := Option.bind_eq_some_iff.mp hfirst
    obtain ⟨ds, hds, hbound⟩ := @ih (a + 1) (fun i hi => by rw [Nat.add_right_comm a 1 i]; exact hcells (i + 1) (by omega))
      (by rw [Nat.add_right_comm a 1 k]; exact hlast)
    refine ⟨(a, c) :: ds, ⟨rfl, hc, hnext.symm ▸ hds⟩, ?_⟩
    intro d hd
    rcases List.mem_cons.mp hd with rfl | hd
    · exact ⟨Nat.le_refl _, by omega⟩
    · obtain ⟨h1, h2⟩ := hbound d hd
      omega

namespace Threads

theorem cqPush_frame (s : Threads n) (tid : Fin (n + 1)) (item : Nat) :
    ∃ mem newConnQueue, s.cqPush tid item = { s with mem := mem, newConnQueue := newConnQueue } := by
  simp only [cqPush]
  split <;> exact ⟨_, _, rfl⟩

@[simp]
theorem cqPush_cqiFreelist : (s.cqPush tid item).cqiFreelist = s.cqiFreelist := by
  obtain ⟨_, _, h⟩ := cqPush_frame s tid item
  rw [h]

@[simp]
theorem cqPush_worker : (s.cqPush tid item).worker = s.worker := by
  obtain ⟨_, _, h⟩ := cqPush_frame s tid item
  rw [h]

@[simp]
theorem cqPush_pipe : (s.cqPush tid item).pipe = s.pipe := by
  obtain ⟨_, _, h⟩ := cqPush_frame s tid item
  rw [h]

@[simp]
theorem cqPush_taken : (s.cqPush tid item).taken = s.taken := by
  obtain ⟨_, _, h⟩ := cqPush_frame s tid item
  rw [h]

@[simp]
theorem cqPush_assigned : (s.cqPush tid item).assigned = s.assigned := by
  obtain ⟨_, _, h⟩ := cqPush_frame s tid item
  rw [h]

@[simp]
theorem cqPush_lastThread : (s.cqPush tid item).lastThread = s.lastThread := by
  obtain ⟨_, _, h⟩ := cqPush_frame s tid item
  rw [h]

theorem cqPush_newConnQueue_of_ne (hw : w ≠ tid) : (s.cqPush tid item).newConnQueue w = s.newConnQueue w := by
  simp only [cqPush]
  split <;> exact Function.update_of_ne hw ..

theorem update_map_ne_none {f : CqItem → CqItem} (hp : s.mem p ≠ none) :
    Function.update s.mem item ((s.mem item).map f) p ≠ none := by
  by_cases he : p = item
  · rw [he, Function.update_self, ne_eq, Option.map_eq_none_iff]
    exact he ▸ hp
  · rw [Function.update_of_ne he]
    exact hp

theorem setNext_ne_none {next : Option Nat} (hp : s.mem p ≠ none) : (s.setNext item next).mem p ≠ none :=
  update_map_ne_none hp

theorem cqPush_ne_none (hp : s.mem p ≠ none) : (s.cqPush tid item).mem p ≠ none := by
  simp only [cqPush]
  split
  · exact setNext_ne_none hp
  · exact setNext_ne_none (setNext_ne_none hp)

/-- Only the item and the one that was last are written. -/
theorem cqPush_mem_of_ne (hi : p ≠ item) (ht : (s.newConnQueue tid).tail ≠ some p) : (s.cqPush tid item).mem p = s.mem p := by
  simp only [cqPush]
  split
  · exact Function.update_of_ne hi ..
  · rename_i tail htail
    have hp : p ≠ tail := fun he => ht (he ▸ htail)
    exact (Function.update_of_ne hp ..).trans (Function.update_of_ne hi ..)

theorem cqPush_queue {x : CqItem} {cs : List (Nat × CqItem)} (hx : s.mem item = some x)
    (h : Chain s.mem CqItem.next (s.newConnQueue tid).head cs) (htail : (s.newConnQueue tid).tail = cs.getLast?.map Prod.fst)
    (hnot : ∀ c ∈ cs, c.1 ≠ item) :
    ∃ ds, Chain (s.cqPush tid item).mem CqItem.next ((s.cqPush tid item).newConnQueue tid).head ds ∧
      ((s.cqPush tid item).newConnQueue tid).tail = ds.getLast?.map Prod.fst ∧
      ds.map Prod.fst = cs.map Prod.fst ++ [item] ∧
      ds.map (fun c => c.2.request) = cs.map (fun c => c.2.request) ++ [x.request] := by
  have hmem : (s.setNext item none).mem = Function.update s.mem item (some { x with next := none }) := by
    show Function.update s.mem item ((s.mem item).map _) = _
    rw [hx]
    rfl
  have hcell : (s.setNext item none).mem item = some { x with next := none } := by rw [hmem, Function.update_self]
  cases hlast : cs.getLast? with
  | none =>
    obtain rfl : cs = [] := List.getLast?_eq_none_iff.mp hlast
    have hpush : s.cqPush tid item = (s.setNext item none).setQueue tid ⟨some item, some item⟩ := by
      simp only [cqPush]
      rw [show ((s.setNext item none).newConnQueue tid).tail = none from htail]
    have hqueue : (s.cqPush tid item).newConnQueue tid = ⟨some item, some item⟩ := hpush ▸ Function.update_self ..
    refine ⟨[(item, { x with next := none })], ?_, by rw [hqueue]; rfl, rfl, rfl⟩
    rw [hqueue, hpush]
    exact ⟨rfl, hcell, rfl⟩
  | some c =>
    obtain ⟨t, y⟩ := c
    obtain ⟨front, rfl⟩ := List.getLast?_eq_some_iff.mp hlast
    rw [hlast, Option.map_some] at htail
    have hpush : s.cqPush tid item =
        ((s.setNext item none).setNext t (some item)).setQueue tid ⟨(s.newConnQueue tid).head, some item⟩ := by
      simp only [cqPush]
      rw [show ((s.setNext item none).newConnQueue tid).tail = some t from htail]
      rfl
    have hqueue : (s.cqPush tid item).newConnQueue tid = ⟨(s.newConnQueue tid).head, some item⟩ := hpush ▸ Function.update_self ..
    have hold := h.write hnot (some { x with next := none })
    rw [← hmem] at hold
    have hwrite : (s.cqPush tid item).mem = Function.update (s.setNext item none).mem t (some { y with next := some item }) := by
      rw [hpush]
      show Function.update (s.setNext item none).mem t (((s.setNext item none).mem t).map _) = _
      rw [hold.mem_eq (List.mem_append_right front List.mem_cons_self)]
      rfl
    refine ⟨front ++ [(t, { y with next := some item }), (item, { x with next := none })], ?_, ?_, ?_, ?_⟩
    · rw [hqueue, hwrite]
      exact hold.link_last hnot hcell rfl rfl
    · rw [hqueue]
      simp
    · simp
    · simp

end Threads

namespace Owned

/-- An item of the dispatcher or of a worker is written. -/
theorem write (h : Owned s free q owner) {pl : Place n} (hp : owner p = some pl) (hfree : pl ≠ .freelist)
    (hqueue : ∀ w, pl ≠ .queue w) (x : Option CqItem) :
    Chain (Function.update s.mem p x) CqItem.next s.cqiFreelist free ∧
      ∀ w, Chain (Function.update s.mem p x) CqItem.next (s.newConnQueue w).head (q w) := by
  constructor
  · refine h.freelist.write (fun c hc he => hfree ?_) x
    exact Option.some.inj (hp.symm.trans (he ▸ h.ownFree c hc))
  · intro w
    refine (h.queue w).write (fun c hc he => hqueue w ?_) x
    exact Option.some.inj (hp.symm.trans (he ▸ h.ownQueue w c hc))

theorem callFree (h : Owned s free q owner) (hfree : s.cqiFreelist = some item) :
    ∃ free' owner', Owned { s.popFreelist item with dispatcher := .got request item } free' q owner' := by
  cases hf : free with
  | nil =>
    have hchain := h.freelist
    rw [hf] at hchain
    cases hfree.symm.trans hchain
  | cons c rest =>
    obtain ⟨a, x⟩ := c
    have hchain : Chain s.mem CqItem.next s.cqiFreelist ((a, x) :: rest) := hf ▸ h.freelist
    have hnodup := hchain.nodup
    obtain ⟨ha, hx, hrest⟩ := hchain
    obtain rfl : a = item := Option.some.inj (ha.symm.trans hfree)
    have hown : owner a = some .freelist := h.ownFree (a, x) (hf ▸ List.mem_cons_self)
    refine ⟨rest, Function.update owner a (some .dispatcher), ?_, h.queue, h.tail, ?_, ?_, ?_, ?_, fun _ _ he => absurd he (ne_block (Nat.le_refl 1))⟩
    · show Chain s.mem CqItem.next ((s.mem a).bind CqItem.next) rest
      rw [hx]
      exact hrest
    · intro c hc
      have hne : c.1 ≠ a := fun he => (List.nodup_cons.mp hnodup).1 (List.mem_map.mpr ⟨c, hc, he⟩)
      rw [Function.update_of_ne hne]
      exact h.ownFree c (hf ▸ List.mem_cons_of_mem _ hc)
    · exact fun w c hc => update_owner hown (h.ownQueue w c hc) nofun
    · intro p hp
      obtain rfl : p = a := List.mem_singleton.mp hp
      exact ⟨Function.update_self .., by show s.mem p ≠ none; rw [hx]; exact Option.some_ne_none x⟩
    · exact fun w p hp => ⟨update_owner hown (h.ownWorker w p hp).1 nofun, (h.ownWorker w p hp).2⟩

/-- Nothing in memory changes, and nobody has an item of its own that had none before. -/
theorem same (h : Owned s free q owner) {s' : Threads n} (hmem : s'.mem = s.mem) (hfree : s'.cqiFreelist = s.cqiFreelist)
    (hqueue : s'.newConnQueue = s.newConnQueue) (hd : ∀ p ∈ s'.dispatcher.items, p ∈ s.dispatcher.items)
    (hb : ∀ request item, s'.dispatcher = .block request item → s.dispatcher = .block request item)
    (hw : ∀ w, ∀ p ∈ (s'.worker w).items, p ∈ (s.worker w).items) : Owned s' free q owner where
  freelist := by rw [hmem, hfree]; exact h.freelist
  queue w := by rw [hmem, hqueue]; exact h.queue w
  tail w := by rw [hqueue]; exact h.tail w
  ownFree := h.ownFree
  ownQueue := h.ownQueue
  ownDispatcher p hp := by rw [hmem]; exact h.ownDispatcher p (hd p hp)
  ownWorker w p hp := by rw [hmem]; exact h.ownWorker w p (hw w p hp)
  block request item hblock := by rw [hmem]; exact h.block request item (hb request item hblock)

theorem malloc (h : Owned s free q owner) (request : ConnRequest) (memory : Nat → CqItem)
    (hnew : ∀ p, item ≤ p → p < item + ITEMS_PER_ALLOC → s.mem p = none) :
    ∃ owner', Owned { s with mem := Threads.linkBlock item memory s.mem, dispatcher := .block request item } free q owner' := by
  have hold : ∀ p c, s.mem p = some c → ¬(item ≤ p ∧ p < item + ITEMS_PER_ALLOC) := by
    rintro p c hc ⟨h1, h2⟩
    rw [hnew p h1 h2] at hc
    cases hc
  have hkeep : ∀ p c, s.mem p = some c → Threads.linkBlock item memory s.mem p = some c := by
    intro p c hc
    rw [Threads.linkBlock, if_neg (hold p c hc), hc]
  have hchain : ∀ {first cs}, Chain s.mem CqItem.next first cs → Chain (Threads.linkBlock item memory s.mem) CqItem.next first cs :=
    fun hcs => hcs.congr fun c hc => by rw [hkeep c.1 c.2 (hcs.mem_eq hc), hcs.mem_eq hc]
  have hown : ∀ {p c}, s.mem p = some c →
      (if item ≤ p ∧ p < item + ITEMS_PER_ALLOC then some (Place.dispatcher : Place n) else owner p) = owner p :=
    fun hc => if_neg (hold _ _ hc)
  refine ⟨fun p => if item ≤ p ∧ p < item + ITEMS_PER_ALLOC then some .dispatcher else owner p, hchain h.freelist,
    fun w => hchain (h.queue w), h.tail, ?_, ?_, ?_, ?_, ?_⟩
  · intro c hc
    exact (hown (h.freelist.mem_eq hc)).trans (h.ownFree c hc)
  · intro w c hc
    exact (hown ((h.queue w).mem_eq hc)).trans (h.ownQueue w c hc)
  · intro p hp
    obtain ⟨i, hi, rfl⟩ := List.mem_map.mp hp
    have hin : item ≤ item + i ∧ item + i < item + ITEMS_PER_ALLOC := ⟨by omega, by have := List.mem_range.mp hi; omega⟩
    refine ⟨if_pos hin, ?_⟩
    show Threads.linkBlock item memory s.mem (item + i) ≠ none
    rw [Threads.linkBlock, if_pos hin]
    exact Option.some_ne_none _
  · intro w p hp
    obtain ⟨hw, hmem⟩ := h.ownWorker w p hp
    obtain ⟨c, hc⟩ := Option.ne_none_iff_exists'.mp hmem
    refine ⟨(hown hc).trans hw, ?_⟩
    show Threads.linkBlock item memory s.mem p ≠ none
    rw [hkeep p c hc]
    exact Option.some_ne_none c
  · intro request' item' hblock i hi hlast
    obtain ⟨-, rfl⟩ := Dispatching.block.inj hblock
    have hin : item ≤ item + i ∧ item + i < item + ITEMS_PER_ALLOC := ⟨by omega, by omega⟩
    show (Threads.linkBlock item memory s.mem (item + i)).bind CqItem.next = _
    rw [Threads.linkBlock, if_pos hin]
    dsimp only
    rw [Nat.add_sub_cancel_left, if_pos ⟨hi, hlast⟩]
    rfl

/-- The new items come before the old ones on the free list. -/
theorem refill (h : Owned s free q owner) (hd : s.dispatcher = .block request item) :
    ∃ free' owner', Owned { s.refill item with dispatcher := .got request item } free' q owner' := by
  have hblock : ∀ p, item ≤ p → p < item + ITEMS_PER_ALLOC → owner p = some .dispatcher ∧ s.mem p ≠ none := by
    intro p h1 h2
    refine h.ownDispatcher p (hd ▸ List.mem_map.mpr ⟨p - item, List.mem_range.mpr (by omega), by omega⟩)
  have hsize : ITEMS_PER_ALLOC = 64 := rfl
  obtain ⟨hlast, hmem⟩ := hblock (item + 63) (by omega) (by omega)
  obtain ⟨x, hx⟩ := Option.ne_none_iff_exists'.mp hmem
  have hwrite := h.write hlast nofun (fun _ => nofun) ((s.mem (item + 63)).map fun i => { i with next := s.cqiFreelist })
  have hcells : ∀ i, i < 62 →
      (Function.update s.mem (item + 63) ((s.mem (item + 63)).map fun i => { i with next := s.cqiFreelist }) (item + 1 + i)).bind
        CqItem.next = some (item + 1 + i + 1) := by
    intro i hi
    rw [Function.update_of_ne (by omega), Nat.add_assoc item 1 i, Nat.add_comm 1 i]
    exact h.block request item hd (i + 1) (by omega) (by omega)
  have hend : ∃ c, Function.update s.mem (item + 63) ((s.mem (item + 63)).map fun i => { i with next := s.cqiFreelist })
      (item + 1 + 62) = some c ∧ c.next = s.cqiFreelist := by
    refine ⟨{ x with next := s.cqiFreelist }, ?_, rfl⟩
    show Function.update s.mem (item + 63) _ (item + 63) = _
    rw [Function.update_self, hx]
    rfl
  obtain ⟨ds, hds, hbound⟩ := block_chain hcells hend hwrite.1
  have hout : ∀ {p pl}, owner p = some pl → pl ≠ .dispatcher →
      (if item + 1 ≤ p ∧ p ≤ item + 63 then some (Place.freelist : Place n) else owner p) = owner p := by
    intro p pl hp hne
    refine if_neg fun hin => hne (Option.some.inj (hp.symm.trans (hblock p (by omega) (by omega)).1))
  have hkept : ∀ {p}, s.mem p ≠ none →
      Function.update s.mem (item + 63) ((s.mem (item + 63)).map fun i => { i with next := s.cqiFreelist }) p ≠ none := by
    intro p hp
    by_cases he : p = item + 63
    · rw [he, Function.update_self, hx]
      exact Option.some_ne_none _
    · rw [Function.update_of_ne he]
      exact hp
  refine ⟨ds ++ free, fun p => if item + 1 ≤ p ∧ p ≤ item + 63 then some .freelist else owner p, hds, hwrite.2, h.tail,
    ?_, ?_, ?_, ?_, fun _ _ he => absurd he (ne_block (Nat.le_refl 1))⟩
  · intro c hc
    rcases List.mem_append.mp hc with hc | hc
    · obtain ⟨h1, h2⟩ := hbound c hc
      exact if_pos ⟨h1, by omega⟩
    · exact (hout (h.ownFree c hc) nofun).trans (h.ownFree c hc)
  · exact fun w c hc => (hout (h.ownQueue w c hc) nofun).trans (h.ownQueue w c hc)
  · intro p hp
    obtain rfl : p = item := List.mem_singleton.mp hp
    obtain ⟨hown, hmem⟩ := hblock p (by omega) (by omega)
    exact ⟨(if_neg (by omega)).trans hown, hkept hmem⟩
  · intro w p hp
    obtain ⟨hown, hmem⟩ := h.ownWorker w p hp
    exact ⟨(hout hown nofun).trans hown, hkept hmem⟩

theorem fill (h : Owned s free q owner) (hd : s.dispatcher = .got request item) {s' : Threads n} (hmem : s'.mem = (s.fill item request).mem)
    (hfree : s'.cqiFreelist = s.cqiFreelist) (hqueue : s'.newConnQueue = s.newConnQueue) (hworker : s'.worker = s.worker)
    (hd' : s'.dispatcher = .filled tid item) : Owned s' free q owner := by
  obtain ⟨hown, -⟩ := h.ownDispatcher item (hd ▸ List.mem_singleton.mpr rfl)
  obtain ⟨h1, h2⟩ := h.write hown nofun (fun _ => nofun) ((s.mem item).map fun i => { i with request := request })
  refine ⟨?_, ?_, ?_, h.ownFree, h.ownQueue, ?_, ?_, ?_⟩
  · rw [hmem, hfree]
    exact h1
  · rw [hmem, hqueue]
    exact h2
  · rw [hqueue]
    exact h.tail
  · rw [hmem, hd']
    intro p hp
    obtain ⟨ho, hm⟩ := h.ownDispatcher p (hd ▸ hp)
    exact ⟨ho, Threads.update_map_ne_none hm⟩
  · rw [hmem, hworker]
    intro w p hp
    obtain ⟨ho, hm⟩ := h.ownWorker w p hp
    exact ⟨ho, Threads.update_map_ne_none hm⟩
  · rw [hd']
    exact fun _ _ he => absurd he (ne_block (Nat.le_refl 1))

/-- The queue of `tid` gets the item behind the others, and the requests in the queues stay. -/
theorem push (h : Owned s free q owner) (hd : s.dispatcher = .filled tid item) :
    ∃ q' owner', Owned { s.cqPush tid item with dispatcher := .pushed tid } free q' owner' ∧
      (∀ w, w ≠ tid → q' w = q w) ∧
      (q' tid).map (fun c => c.2.request) = (q tid).map (fun c => c.2.request) ++ s.requestOf item := by
  obtain ⟨hown, hmem⟩ := h.ownDispatcher item (hd ▸ List.mem_singleton.mpr rfl)
  obtain ⟨x, hx⟩ := Option.ne_none_iff_exists'.mp hmem
  have hne : ∀ {p pl}, owner p = some pl → pl ≠ .dispatcher → p ≠ item := by
    rintro p pl hp hpl rfl
    exact hpl (Option.some.inj (hp.symm.trans hown))
  have htail : ∀ {p pl}, owner p = some pl → pl ≠ .queue tid → (s.newConnQueue tid).tail ≠ some p := by
    intro p pl hp hpl he
    rw [h.tail tid] at he
    obtain ⟨c, hc, rfl⟩ := Option.map_eq_some_iff.mp he
    exact hpl (Option.some.inj (hp.symm.trans (h.ownQueue tid c (List.mem_of_getLast? hc))))
  have hkept : ∀ {first cs pl}, Chain s.mem CqItem.next first cs → (∀ c ∈ cs, owner c.1 = some pl) → pl ≠ .dispatcher →
      pl ≠ .queue tid → Chain (s.cqPush tid item).mem CqItem.next first cs :=
    fun hcs ho hd hq => hcs.congr fun c hc => Threads.cqPush_mem_of_ne (hne (ho c hc) hd) (htail (ho c hc) hq)
  obtain ⟨ds, hds, hlast, hitems, hrequests⟩ := Threads.cqPush_queue hx (h.queue tid) (h.tail tid)
    fun c hc => hne (h.ownQueue tid c hc) nofun
  refine ⟨Function.update q tid ds, Function.update owner item (some (.queue tid)), ⟨?_, ?_, ?_, ?_, ?_, nofun, ?_, fun _ _ he => absurd he (ne_block (Nat.zero_le 1))⟩,
    fun w hw => Function.update_of_ne hw .., ?_⟩
  · show Chain _ _ (s.cqPush tid item).cqiFreelist _
    rw [Threads.cqPush_cqiFreelist]
    exact hkept h.freelist h.ownFree nofun nofun
  · intro w
    show Chain (s.cqPush tid item).mem _ ((s.cqPush tid item).newConnQueue w).head _
    by_cases hw : w = tid
    · rw [hw, Function.update_self]
      exact hds
    · rw [Function.update_of_ne hw, Threads.cqPush_newConnQueue_of_ne hw]
      exact hkept (h.queue w) (h.ownQueue w) nofun fun he => hw (Place.queue.inj he)
  · intro w
    show ((s.cqPush tid item).newConnQueue w).tail = _
    by_cases hw : w = tid
    · rw [hw, Function.update_self]
      exact hlast
    · rw [Function.update_of_ne hw, Threads.cqPush_newConnQueue_of_ne hw]
      exact h.tail w
  · exact fun c hc => update_owner hown (h.ownFree c hc) nofun
  · intro w c hc
    by_cases hw : w = tid
    · rw [hw, Function.update_self] at hc
      have hc' : c.1 ∈ (q tid).map Prod.fst ++ [item] := hitems ▸ List.mem_map_of_mem hc
      rcases List.mem_append.mp hc' with hc' | hc'
      · obtain ⟨d, hd, hdc⟩ := List.mem_map.mp hc'
        rw [← hdc, hw]
        exact update_owner hown (h.ownQueue tid d hd) nofun
      · rw [List.mem_singleton.mp hc', hw, Function.update_self]
    · rw [Function.update_of_ne hw] at hc
      exact update_owner hown (h.ownQueue w c hc) nofun
  · intro w p hp
    have hp' : p ∈ (s.worker w).items := by
      have heq : (s.cqPush tid item).worker = s.worker := Threads.cqPush_worker
      exact heq ▸ hp
    exact ⟨update_owner hown (h.ownWorker w p hp').1 nofun, Threads.cqPush_ne_none (h.ownWorker w p hp').2⟩
  · rw [Function.update_self, hrequests]
    simp [Threads.requestOf, hx]

/-- The worker gets the first item of its queue. -/
theorem pop (h : Owned s free q owner) (hhead : (s.newConnQueue w).head = some item) :
    ∃ x rest owner', q w = (item, x) :: rest ∧
      Owned ((s.cqPop w item).setWorker w (.popped item)) free (Function.update q w rest) owner' := by
  have hchain := h.queue w
  have htail := h.tail w
  have hnodup := hchain.nodup
  cases hq : q w with
  | nil =>
    rw [hq] at hchain
    cases hhead.symm.trans hchain
  | cons c rest =>
    obtain ⟨a, x⟩ := c
    rw [hq] at hchain htail hnodup
    obtain ⟨ha, hx, hrest⟩ := hchain
    obtain rfl : a = item := Option.some.inj (ha.symm.trans hhead)
    have hown : owner a = some (.queue w) := h.ownQueue w (a, x) (hq ▸ List.mem_cons_self)
    have hnext : (s.mem a).bind CqItem.next = x.next := by rw [hx]; rfl
    refine ⟨x, rest, Function.update owner a (some (.worker w)), rfl, h.freelist, ?_, ?_, ?_, ?_, ?_, ?_, h.block⟩
    · intro v
      show Chain s.mem CqItem.next (Function.update s.newConnQueue w _ v).head _
      by_cases hv : v = w
      · rw [hv, Function.update_self, Function.update_self, hnext]
        exact hrest
      · rw [Function.update_of_ne hv, Function.update_of_ne hv]
        exact h.queue v
    · intro v
      show (Function.update s.newConnQueue w _ v).tail = _
      by_cases hv : v = w
      · rw [hv, Function.update_self, Function.update_self, hnext]
        cases rest with
        | nil => exact if_pos hrest
        | cons d ds => exact (if_neg (by rw [hrest.1]; exact Option.some_ne_none _)).trans (htail.trans (by rw [List.getLast?_cons_cons]))
      · rw [Function.update_of_ne hv, Function.update_of_ne hv]
        exact h.tail v
    · exact fun c hc => update_owner hown (h.ownFree c hc) nofun
    · intro v c hc
      by_cases hv : v = w
      · rw [hv, Function.update_self] at hc
        have hne : c.1 ≠ a := fun he => (List.nodup_cons.mp hnodup).1 (List.mem_map.mpr ⟨c, hc, he⟩)
        rw [Function.update_of_ne hne, hv]
        exact h.ownQueue w c (hq ▸ List.mem_cons_of_mem _ hc)
      · rw [Function.update_of_ne hv] at hc
        exact update_owner hown (h.ownQueue v c hc) fun he => hv (Place.queue.inj he).symm
    · exact fun p hp => ⟨update_owner hown (h.ownDispatcher p hp).1 nofun, (h.ownDispatcher p hp).2⟩
    · intro v p hp
      change p ∈ (Function.update s.worker w _ v).items at hp
      by_cases hv : v = w
      · rw [hv, Function.update_self] at hp
        rw [List.mem_singleton.mp hp, hv]
        exact ⟨Function.update_self .., by show s.mem a ≠ none; rw [hx]; exact Option.some_ne_none x⟩
      · rw [Function.update_of_ne hv] at hp
        exact ⟨update_owner hown (h.ownWorker v p hp).1 nofun, (h.ownWorker v p hp).2⟩

/-- The item goes to the head of the free list. -/
theorem cqiFree (h : Owned s free q owner) (hw : s.worker w = .served item) :
    ∃ free' owner', Owned ((s.cqiFree item).setWorker w .idle) free' q owner' := by
  obtain ⟨hown, hmem⟩ := h.ownWorker w item (hw ▸ List.mem_singleton.mpr rfl)
  obtain ⟨x, hx⟩ := Option.ne_none_iff_exists'.mp hmem
  obtain ⟨hfree, hqueue⟩ := h.write hown nofun (fun _ => nofun) (some { x with next := s.cqiFreelist })
  have hset : (s.setNext item s.cqiFreelist).mem = Function.update s.mem item (some { x with next := s.cqiFreelist }) := by
    show Function.update s.mem item ((s.mem item).map _) = _
    rw [hx]
    rfl
  rw [← hset] at hfree hqueue
  refine ⟨(item, { x with next := s.cqiFreelist }) :: free, Function.update owner item (some .freelist), ⟨rfl, ?_, hfree⟩, hqueue,
    h.tail, ?_, ?_, ?_, ?_, ?_⟩
  · show (s.setNext item s.cqiFreelist).mem item = _
    rw [hset, Function.update_self]
  · intro c hc
    rcases List.mem_cons.mp hc with rfl | hc
    · exact Function.update_self ..
    · exact update_owner hown (h.ownFree c hc) nofun
  · exact fun v c hc => update_owner hown (h.ownQueue v c hc) nofun
  · exact fun p hp => ⟨update_owner hown (h.ownDispatcher p hp).1 nofun, Threads.setNext_ne_none (h.ownDispatcher p hp).2⟩
  · intro v p hp
    change p ∈ (Function.update s.worker w _ v).items at hp
    by_cases hv : v = w
    · rw [hv, Function.update_self] at hp
      cases hp
    · rw [Function.update_of_ne hv] at hp
      exact ⟨update_owner hown (h.ownWorker v p hp).1 fun he => hv (Place.worker.inj he).symm,
        Threads.setNext_ne_none (h.ownWorker v p hp).2⟩
  · intro request' item' hd i hi hlast
    have hne : item' + i ≠ item := by
      intro he
      have hin : item' + i ∈ s.dispatcher.items := by
        rw [show s.dispatcher = _ from hd]
        exact List.mem_map.mpr ⟨i, List.mem_range.mpr (by omega), rfl⟩
      have hdisp := (h.ownDispatcher _ hin).1
      rw [he, hown] at hdisp
      cases hdisp
    show ((s.setNext item s.cqiFreelist).mem (item' + i)).bind CqItem.next = _
    rw [hset, Function.update_of_ne hne]
    exact h.block request' item' hd i hi hlast

end Owned

namespace Threads

@[simp]
theorem requestOf_setNext {next : Option Nat} : (s.setNext item next).requestOf p = s.requestOf p := by
  show (Option.map CqItem.request (Function.update s.mem item ((s.mem item).map _) p)).toList = _
  by_cases he : p = item
  · rw [he, Function.update_self, Option.map_map]
    rfl
  · rw [Function.update_of_ne he]
    rfl

@[simp]
theorem requestOf_cqPush : (s.cqPush tid item).requestOf p = s.requestOf p := by
  simp only [cqPush]
  split
  · exact requestOf_setNext
  · exact requestOf_setNext.trans requestOf_setNext

/-- What `last_thread` is after an assignment. -/
theorem nextThread_of_eq {k : Nat} (h : s.lastThread = ((Fin.ofNat (n + 1) k).val : Int)) :
    s.nextThread = Fin.ofNat (n + 1) (k + 1) := by
  have hval : (Fin.ofNat (n + 1) k).val = k % (n + 1) := rfl
  have hturn : ((s.lastThread + 1) % (n + 1 : Nat)).toNat = (k % (n + 1) + 1) % (n + 1) := by
    rw [h, hval, ← Int.natCast_add_one, ← Int.natCast_emod, Int.toNat_natCast]
  rw [nextThread, hturn]
  refine Fin.ext ?_
  show (k % (n + 1) + 1) % (n + 1) % (n + 1) = (k + 1) % (n + 1)
  rw [Nat.mod_mod, Nat.mod_add_mod]

end Threads

namespace Counted

/-- A step that leaves the queues, what is assigned and what is taken. -/
theorem same {s' : Threads n} (h : Counted s q) (hlast : s'.lastThread = s.lastThread) (hassigned : s'.assigned = s.assigned)
    (htaken : s'.taken = s.taken)
    (hbytes : ∀ w, (s'.pipe w).count .conn + (s'.worker w).awake + s'.dispatcher.unannounced w =
      (s.pipe w).count .conn + (s.worker w).awake + s.dispatcher.unannounced w)
    (hun : ∀ w, (s'.worker w).unserved = (s.worker w).unserved)
    (hfill : ∀ w, s'.dispatcher.filledFor w = s.dispatcher.filledFor w)
    (hrequest : ∀ w, ∀ p ∈ (s.worker w).unserved ++ s.dispatcher.filledFor w, s'.requestOf p = s.requestOf p) : Counted s' q where
  bytes w := (h.bytes w).trans (hbytes w).symm
  order w := by
    have h1 : (s.worker w).unserved.flatMap s'.requestOf = (s.worker w).unserved.flatMap s.requestOf :=
      List.flatMap_congr fun p hp => hrequest w p (List.mem_append_left _ hp)
    have h2 : (s.dispatcher.filledFor w).flatMap s'.requestOf = (s.dispatcher.filledFor w).flatMap s.requestOf :=
      List.flatMap_congr fun p hp => hrequest w p (List.mem_append_right _ hp)
    rw [Threads.assignedTo, hassigned, htaken, hun, hfill, h1, h2]
    exact h.order w
  turn := by
    rw [hassigned, ← h.turn, Threads.nextThread, Threads.nextThread, hlast]
  rotates := by
    rw [hassigned]
    exact h.rotates

theorem assign (h : Counted s q) (ho : Owned s free q owner) (hd : s.dispatcher = .got request item) :
    Counted { s.fill item request with
      lastThread := (s.nextThread.val : Int)
      dispatcher := .filled s.nextThread item
      assigned := s.assigned ++ [(s.nextThread, request)] } q := by
  obtain ⟨hown, hmem⟩ := ho.ownDispatcher item (hd ▸ List.mem_singleton.mpr rfl)
  obtain ⟨x, hx⟩ := Option.ne_none_iff_exists'.mp hmem
  refine ⟨fun w => ?_, fun w => ?_, ?_, ?_⟩
  · have hw := h.bytes w
    rw [hd] at hw
    exact hw
  · have hw := h.order w
    rw [hd] at hw
    have hun : (s.worker w).unserved.flatMap (s.fill item request).requestOf = (s.worker w).unserved.flatMap s.requestOf := by
      refine List.flatMap_congr fun p hp => ?_
      have hworker : owner p = some (.worker w) := (ho.ownWorker w p (unserved_items hp)).1
      have hne : p ≠ item := fun he => by
        rw [he, hown] at hworker
        cases hworker
      show (Option.map CqItem.request (Function.update s.mem item _ p)).toList = _
      rw [Function.update_of_ne hne]
      rfl
    have hitem : (s.fill item request).requestOf item = [request] := by
      show (Option.map CqItem.request (Function.update s.mem item ((s.mem item).map _) item)).toList = _
      rw [Function.update_self, hx]
      rfl
    show ((s.assigned ++ [(s.nextThread, request)]).filter _).map _ = s.taken w ++
      (s.worker w).unserved.flatMap (s.fill item request).requestOf ++ _ ++
        (Dispatching.filledFor w (.filled s.nextThread item)).flatMap (s.fill item request).requestOf
    rw [List.filter_append, List.map_append, ← Threads.assignedTo, hw, hun]
    by_cases ht : s.nextThread = w
    · simp [Dispatching.filledFor, ht, hitem]
    · simp [Dispatching.filledFor, ht]
  · refine (Threads.nextThread_of_eq (k := s.assigned.length) ?_).trans (by simp)
    rw [← h.turn]
  · show (s.assigned ++ [(s.nextThread, request)]).map Prod.fst = _
    simp only [List.length_append, List.length_singleton, List.range_succ, List.map_append, h.rotates, h.turn, List.map_cons,
      List.map_nil]

theorem push {q' : Fin (n + 1) → List (Nat × CqItem)} (h : Counted s q) (hd : s.dispatcher = .filled tid item)
    (hothers : ∀ w, w ≠ tid → q' w = q w)
    (hrequests : (q' tid).map (fun c => c.2.request) = (q tid).map (fun c => c.2.request) ++ s.requestOf item)
    (hone : (s.requestOf item).length = 1) : Counted { s.cqPush tid item with dispatcher := .pushed tid } q' := by
  refine ⟨fun w => ?_, fun w => ?_, ?_, ?_⟩
  · have hw := h.bytes w
    show (q' w).length = ((s.cqPush tid item).pipe w).count .conn + ((s.cqPush tid item).worker w).awake + if tid = w then 1 else 0
    rw [hd] at hw
    rw [Threads.cqPush_pipe, Threads.cqPush_worker]
    by_cases ht : w = tid
    · have hlen := congrArg List.length hrequests
      rw [List.length_map, List.length_append, List.length_map, hone] at hlen
      rw [ht] at hw ⊢
      rw [if_pos rfl, hlen, hw]
      rfl
    · rw [if_neg (Ne.symm ht), hothers w ht, hw]
      rfl
  · have hw := h.order w
    rw [hd] at hw
    have hrequest : { s.cqPush tid item with dispatcher := .pushed tid }.requestOf = s.requestOf :=
      funext fun p => Threads.requestOf_cqPush
    show (((s.cqPush tid item).assigned).filter _).map _ = (s.cqPush tid item).taken w ++
      ((s.cqPush tid item).worker w).unserved.flatMap { s.cqPush tid item with dispatcher := .pushed tid }.requestOf ++ _ ++ []
    rw [hrequest, Threads.cqPush_assigned, Threads.cqPush_taken, Threads.cqPush_worker, ← Threads.assignedTo, hw, List.append_nil]
    by_cases ht : w = tid
    · rw [ht, hrequests]
      simp [Dispatching.filledFor]
    · rw [hothers w ht]
      simp [Dispatching.filledFor, Ne.symm ht]
  · show Fin.ofNat (n + 1) (((s.cqPush tid item).lastThread + 1) % (n + 1 : Nat)).toNat = Fin.ofNat (n + 1) (s.cqPush tid item).assigned.length
    rw [Threads.cqPush_lastThread, Threads.cqPush_assigned]
    exact h.turn
  · show (s.cqPush tid item).assigned.map Prod.fst = (List.range (s.cqPush tid item).assigned.length).map _
    rw [Threads.cqPush_assigned]
    exact h.rotates

theorem pop {x : CqItem} {rest : List (Nat × CqItem)} (h : Counted s q) (hw : s.worker w = .woken)
    (hx : s.mem item = some x) (hq : q w = (item, x) :: rest) :
    Counted ((s.cqPop w item).setWorker w (.popped item)) (Function.update q w rest) := by
  refine ⟨fun v => ?_, fun v => ?_, h.turn, h.rotates⟩
  · have hv := h.bytes v
    show _ = (s.pipe v).count .conn + (Function.update s.worker w _ v).awake + s.dispatcher.unannounced v
    by_cases he : v = w
    · rw [he] at hv ⊢
      rw [hq, hw, List.length_cons] at hv
      rw [Function.update_self, Function.update_self]
      simp only [Processing.awake] at hv ⊢
      omega
    · rw [Function.update_of_ne he, Function.update_of_ne he]
      exact hv
  · have hv := h.order v
    show s.assignedTo v = s.taken v ++ (Function.update s.worker w _ v).unserved.flatMap s.requestOf ++ _ ++
      (s.dispatcher.filledFor v).flatMap s.requestOf
    by_cases he : v = w
    · rw [he] at hv ⊢
      rw [hq, hw] at hv
      rw [Function.update_self, Function.update_self, hv]
      simp [Processing.unserved, Threads.requestOf, hx]
    · rw [Function.update_of_ne he, Function.update_of_ne he]
      exact hv

theorem connNew {x : CqItem} (h : Counted s q) (hw : s.worker w = .popped item) (hx : s.mem item = some x) :
    Counted { s.setWorker w (.served item) with taken := Function.update s.taken w (s.taken w ++ [x.request]) } q := by
  refine ⟨fun v => ?_, fun v => ?_, h.turn, h.rotates⟩
  · have hv := h.bytes v
    show _ = (s.pipe v).count .conn + (Function.update s.worker w _ v).awake + s.dispatcher.unannounced v
    by_cases he : v = w
    · rw [he] at hv ⊢
      rw [hw] at hv
      rw [Function.update_self]
      exact hv
    · rw [Function.update_of_ne he]
      exact hv
  · have hv := h.order v
    show s.assignedTo v = Function.update s.taken w _ v ++ (Function.update s.worker w _ v).unserved.flatMap s.requestOf ++ _ ++
      (s.dispatcher.filledFor v).flatMap s.requestOf
    by_cases he : v = w
    · rw [he] at hv ⊢
      rw [hw] at hv
      rw [Function.update_self, Function.update_self, hv]
      simp [Processing.unserved, Threads.requestOf, hx]
    · rw [Function.update_of_ne he, Function.update_of_ne he]
      exact hv

end Counted

/-- The invariant of the threads. -/
def Threads.Ok (s : Threads n) : Prop := ∃ free q owner, Owned s free q owner ∧ Counted s q

theorem Threads.start_ok (n : Nat) : (start n).Ok := by
  refine ⟨[], fun _ => [], fun _ => none, ⟨rfl, fun _ => rfl, fun _ => rfl, fun _ hc => absurd hc List.not_mem_nil,
    fun _ _ hc => absurd hc List.not_mem_nil, fun _ hp => absurd hp List.not_mem_nil, fun _ _ hp => absurd hp List.not_mem_nil,
    fun _ _ he => absurd he (ne_block (Nat.zero_le 1))⟩, ⟨fun _ => rfl, fun _ => rfl, rfl, rfl⟩⟩

theorem Owned.requestOf_same {s' : Threads n} (h : Owned s free q owner)
    (hmem : ∀ p, owner p = some (.worker w) → s.mem p ≠ none → s'.mem p = s.mem p) :
    ∀ p ∈ (s.worker w).unserved, s'.requestOf p = s.requestOf p := by
  intro p hp
  obtain ⟨ho, hm⟩ := h.ownWorker w p (unserved_items hp)
  rw [Threads.requestOf, hmem p ho hm]
  rfl

/-- One case for each step. -/
theorem ThreadStep.ok {e : ThreadEvent n} {t : Threads n} (hs : ThreadStep s e t) (h : s.Ok) : t.Ok := by
  obtain ⟨free, q, owner, ho, hc⟩ := h
  cases hs with
  | @callFree request item hd hfree =>
    obtain ⟨free', owner', ho'⟩ := ho.callFree hfree
    exact ⟨free', q, owner', ho', hc.same rfl rfl rfl (fun w => by rw [hd]; rfl) (fun _ => rfl) (fun w => by rw [hd]; rfl)
      fun _ _ _ => rfl⟩
  | callEmpty hd _ =>
    exact ⟨free, q, owner, ho.same rfl rfl rfl (fun _ hp => absurd hp List.not_mem_nil)
        (fun _ _ he => absurd he (ne_block (Nat.zero_le 1))) fun _ _ hp => hp,
      hc.same rfl rfl rfl (fun w => by rw [hd]; rfl) (fun _ => rfl) (fun w => by rw [hd]; rfl) fun _ _ _ => rfl⟩
  | @malloc request item memory hd hnew =>
    obtain ⟨owner', ho'⟩ := ho.malloc request memory hnew
    refine ⟨free, q, owner', ho', hc.same rfl rfl rfl (fun w => by rw [hd]; rfl) (fun _ => rfl) (fun w => by rw [hd]; rfl) ?_⟩
    intro w p hp
    rw [hd] at hp
    refine ho.requestOf_same (fun p _ hm => if_neg fun hin => hm (hnew p hin.1 hin.2)) p (List.append_nil _ ▸ hp)
  | @refill request item hd =>
    obtain ⟨free', owner', ho'⟩ := ho.refill hd
    exact ⟨free', q, owner', ho', hc.same rfl rfl rfl (fun w => by rw [hd]; rfl) (fun _ => rfl) (fun w => by rw [hd]; rfl)
      fun _ _ _ => Threads.requestOf_setNext⟩
  | assign hd => exact ⟨free, q, owner, ho.fill hd rfl rfl rfl rfl rfl, hc.assign ho hd⟩
  | @push tid item hd =>
    obtain ⟨q', owner', ho', hothers, hrequests⟩ := ho.push hd
    obtain ⟨x, hx⟩ := Option.ne_none_iff_exists'.mp (ho.ownDispatcher item (hd ▸ List.mem_singleton.mpr rfl)).2
    exact ⟨free, q', owner', ho', hc.push hd hothers hrequests (by simp [Threads.requestOf, hx])⟩
  | @notify tid hd =>
    refine ⟨free, q, owner, ho.same rfl rfl rfl (fun _ hp => absurd hp List.not_mem_nil)
        (fun _ _ he => absurd he (ne_block (Nat.zero_le 1))) fun _ _ hp => hp,
      hc.same rfl rfl rfl (fun w => ?_) (fun _ => rfl) (fun w => by rw [hd]; rfl) fun _ _ _ => rfl⟩
    rw [hd]
    show (Function.update s.pipe tid _ w).count .conn + _ + 0 = _ + _ + if tid = w then 1 else 0
    by_cases ht : w = tid
    · rw [ht, Function.update_self, if_pos rfl, List.count_append]
      simp [Threads.write]
      omega
    · rw [Function.update_of_ne ht, if_neg (Ne.symm ht)]
      rfl
  | lockType w granular =>
    refine ⟨free, q, owner, ho.same rfl rfl rfl (fun _ hp => hp) (fun _ _ hb => hb) fun _ _ hp => hp,
      hc.same rfl rfl rfl (fun v => ?_) (fun _ => rfl) (fun _ => rfl) fun _ _ _ => rfl⟩
    refine congrArg (fun k => k + _ + _) (update_same (g := List.count PipeByte.conn) (f := s.pipe) ?_)
    rw [List.count_append]
    rfl
  | @wake w rest hw hp =>
    refine ⟨free, q, owner, ho.same rfl rfl rfl (fun _ hp => hp) (fun _ _ hb => hb) fun v p hp' => ?_,
      hc.same rfl rfl rfl (fun v => ?_) (fun v => ?_) (fun _ => rfl) fun _ _ _ => rfl⟩
    · change p ∈ (Function.update s.worker w _ v).items at hp'
      by_cases hv : v = w
      · rw [hv, Function.update_self] at hp'
        cases hp'
      · rw [Function.update_of_ne hv] at hp'
        exact hp'
    · show (Function.update s.pipe w rest v).count .conn + (Function.update s.worker w .woken v).awake + _ = _
      by_cases hv : v = w
      · rw [hv, Function.update_self, Function.update_self, hw, hp, List.count_cons_self]
        rfl
      · rw [Function.update_of_ne hv, Function.update_of_ne hv]
        rfl
    · exact update_same (g := Processing.unserved) (f := s.worker) (by rw [hw]; rfl)
  | @wakeLockType w granular rest hw hp =>
    refine ⟨free, q, owner, ho.same rfl rfl rfl (fun _ hp => hp) (fun _ _ hb => hb) fun _ _ hp => hp,
      hc.same rfl rfl rfl (fun v => ?_) (fun _ => rfl) (fun _ => rfl) fun _ _ _ => rfl⟩
    refine congrArg (fun k => k + _ + _) (update_same (g := List.count PipeByte.conn) (f := s.pipe) ?_)
    rw [hp, List.count_cons_of_ne (fun he => by cases he)]
  | @pop w item hw hhead =>
    obtain ⟨x, rest, owner', hq, ho'⟩ := ho.pop hhead
    have hx : s.mem item = some x := (ho.queue w).mem_eq (hq ▸ List.mem_cons_self)
    exact ⟨free, _, owner', ho', hc.pop hw hx hq⟩
  | @popEmpty w hw hhead =>
    -- each byte stands for an item of the queue
    have hbytes := hc.bytes w
    have hchain := ho.queue w
    cases hq : q w with
    | nil =>
      rw [hq, hw] at hbytes
      simp only [List.length_nil, Processing.awake] at hbytes
      omega
    | cons c cs =>
      rw [hq, hhead] at hchain
      cases hchain.1
  | @connNew w item x hw hx =>
    refine ⟨free, q, owner, ho.same rfl rfl rfl (fun _ hp => hp) (fun _ _ hb => hb) fun v p hp => ?_, hc.connNew hw hx⟩
    change p ∈ (Function.update s.worker w _ v).items at hp
    by_cases hv : v = w
    · rw [hv, Function.update_self] at hp
      rw [hv, hw]
      exact hp
    · rw [Function.update_of_ne hv] at hp
      exact hp
  | @free w item hw =>
    obtain ⟨free', owner', ho'⟩ := ho.cqiFree hw
    refine ⟨free', q, owner', ho', hc.same rfl rfl rfl (fun v => ?_) (fun v => ?_) (fun _ => rfl)
      fun _ _ _ => Threads.requestOf_setNext⟩
    · exact congrArg (fun k => _ + k + _) (update_same (g := Processing.awake) (f := s.worker) (by rw [hw]; rfl))
    · exact update_same (g := Processing.unserved) (f := s.worker) (by rw [hw]; rfl)

/-! ## Runs -/

def ThreadEvent.calls : ThreadEvent n → List ConnRequest
  | .call request => [request]
  | _ => []

/-- What comes from outside of the threads: a connection, or a byte of `switch_item_lock_type`. -/
def ThreadEvent.outside : ThreadEvent n → Bool
  | .call _ => true
  | .lockType _ _ => true
  | _ => false

def Dispatching.work : Dispatching n → Nat
  | .idle => 0
  | .noItem _ => 10
  | .block _ _ => 9
  | .got _ _ => 8
  | .filled _ _ => 7
  | .pushed _ => 6

def Processing.work : Processing → Nat
  | .idle => 0
  | .woken => 3
  | .popped _ => 2
  | .served _ => 1

/-- A bound on the steps that are left. -/
def Threads.work (s : Threads n) : Nat :=
  s.dispatcher.work + ∑ w, (4 * (s.pipe w).length + (s.worker w).work)

/-- A sum that differs at one place. -/
theorem sum_at {f g : Fin (n + 1) → Nat} {k : Nat} (hw : g w = f w + k) (hv : ∀ v, v ≠ w → g v = f v) :
    ∑ v, g v = ∑ v, f v + k := by
  have hg : ∀ v, g v = f v + if v = w then k else 0 := by
    intro v
    by_cases he : v = w
    · rw [he, if_pos rfl, hw]
    · rw [if_neg he, hv v he, Nat.add_zero]
  rw [Finset.sum_congr rfl fun v _ => hg v, Finset.sum_add_distrib, Finset.sum_ite_eq', if_pos (Finset.mem_univ w)]

/-- A step of a worker, and what it leaves of the others. -/
theorem Threads.work_worker {t : Threads n} (w : Fin (n + 1)) (hd : t.dispatcher = s.dispatcher)
    (hpipe : ∀ v, v ≠ w → t.pipe v = s.pipe v) (hworker : ∀ v, v ≠ w → t.worker v = s.worker v)
    (hw : 4 * (t.pipe w).length + (t.worker w).work < 4 * (s.pipe w).length + (s.worker w).work) : t.work < s.work := by
  obtain ⟨k, hk⟩ := Nat.exists_eq_add_of_lt hw
  have hsum := sum_at (k := k + 1) (f := fun v => 4 * (t.pipe v).length + (t.worker v).work)
    (g := fun v => 4 * (s.pipe v).length + (s.worker v).work) hk (fun v hv => by rw [hpipe v hv, hworker v hv])
  rw [work, work, hd, hsum]
  omega

/-- A worker that looks at no pipe. -/
theorem Threads.work_setWorker {at' : Processing} {t : Threads n} (hd : t.dispatcher = s.dispatcher) (hpipe : t.pipe = s.pipe)
    (hworker : t.worker = Function.update s.worker w at') (hw : at'.work < (s.worker w).work) : t.work < s.work := by
  refine work_worker w hd (fun v _ => congrFun hpipe v) (fun v hv => ?_) ?_
  · rw [hworker, Function.update_of_ne hv]
  · rw [hpipe, hworker, Function.update_self]
    exact Nat.add_lt_add_left hw _

theorem ThreadStep.work_lt {e : ThreadEvent n} {t : Threads n} (hs : ThreadStep s e t) (hin : e.outside = false) :
    t.work < s.work := by
  have hdispatcher : t.pipe = s.pipe → t.worker = s.worker → t.dispatcher.work < s.dispatcher.work → t.work < s.work := by
    intro hp hw hlt
    rw [Threads.work, Threads.work, hp, hw]
    exact Nat.add_lt_add_right hlt _
  cases hs with
  | callFree | callEmpty | lockType => cases hin
  | malloc hd => exact hdispatcher rfl rfl (by rw [hd]; exact Nat.lt_succ_self _)
  | refill hd => exact hdispatcher rfl rfl (by rw [hd]; exact Nat.lt_succ_self _)
  | assign hd => exact hdispatcher rfl rfl (by rw [hd]; exact Nat.lt_succ_self _)
  | push hd => exact hdispatcher Threads.cqPush_pipe Threads.cqPush_worker (by rw [hd]; exact Nat.lt_succ_self _)
  | @notify tid hd =>
    have hsum := sum_at (w := tid) (k := 4) (f := fun v => 4 * (s.pipe v).length + (s.worker v).work)
      (g := fun v => 4 * (Function.update s.pipe tid (s.pipe tid ++ [.conn]) v).length + (s.worker v).work)
      (by rw [Function.update_self, List.length_append, List.length_singleton]; omega)
      (fun v hv => by rw [Function.update_of_ne hv])
    rw [Threads.work, Threads.work, hd]
    dsimp only [Threads.write, Dispatching.work]
    rw [hsum]
    omega
  | @wake w rest hw hp =>
    refine Threads.work_worker w rfl (fun v hv => Function.update_of_ne hv ..) (fun v hv => Function.update_of_ne hv ..) ?_
    show 4 * (Function.update s.pipe w rest w).length + (Function.update s.worker w .woken w).work < _
    rw [Function.update_self, Function.update_self, hw, hp]
    exact Nat.lt_succ_self _
  | @wakeLockType w granular rest hw hp =>
    refine Threads.work_worker w rfl (fun v hv => Function.update_of_ne hv ..) (fun v _ => rfl) ?_
    show 4 * (Function.update s.pipe w rest w).length + (s.worker w).work < _
    rw [Function.update_self, hp, List.length_cons]
    omega
  | @pop w item hw _ => exact Threads.work_setWorker (w := w) rfl rfl rfl (by rw [hw]; exact Nat.lt_succ_self 2)
  | @popEmpty w hw _ => exact Threads.work_setWorker (w := w) rfl rfl rfl (by rw [hw]; exact Nat.succ_pos 2)
  | @connNew w item i hw _ => exact Threads.work_setWorker (w := w) rfl rfl rfl (by rw [hw]; exact Nat.lt_succ_self 1)
  | @free w item hw => exact Threads.work_setWorker (w := w) rfl rfl rfl (by rw [hw]; exact Nat.succ_pos 0)

/-- What is to hold after the steps `ops`. -/
structure ConnsDispatched (ops : List (ThreadEvent n)) (s : Threads n) : Prop where
  /-- the workers are taken in turn -/
  rotates : s.assigned.map Prod.fst = (List.range s.assigned.length).map (Fin.ofNat (n + 1))
  calls : ops.flatMap ThreadEvent.calls = s.assigned.map Prod.snd ++ s.dispatcher.request
  order : ∀ w, s.taken w <+: s.assignedTo w
  /-- where no thread has anything left to do, each connection was taken -/
  all : (∀ e t, ThreadStep s e t → e.outside = true) → (∀ request, s.dispatcher ≠ .noItem request) →
    s.dispatcher = .idle ∧ ∀ w, s.taken w = s.assignedTo w
  ends : ∀ later t, Run ThreadStep s later t → (∀ e ∈ later, e.outside = false) → later.length ≤ s.work
  freelist : ∃ cs, Chain s.mem CqItem.next s.cqiFreelist cs
  queue : ∀ w, ∃ cs, Chain s.mem CqItem.next (s.newConnQueue w).head cs ∧
    (s.newConnQueue w).tail = cs.getLast?.map Prod.fst
  apart : ∀ item a b, s.IsAt item a → s.IsAt item b → a = b

theorem Owned.isAt (h : Owned s free q owner) {pl : Place n} (hp : s.IsAt p pl) : owner p = some pl := by
  cases pl with
  | freelist =>
    obtain ⟨cs, hcs, hp⟩ := hp
    obtain ⟨c, hc, rfl⟩ := List.mem_map.mp hp
    exact h.ownFree c (hcs.unique h.freelist ▸ hc)
  | queue w =>
    obtain ⟨cs, hcs, hp⟩ := hp
    obtain ⟨c, hc, rfl⟩ := List.mem_map.mp hp
    exact h.ownQueue w c (hcs.unique (h.queue w) ▸ hc)
  | dispatcher => exact (h.ownDispatcher p hp).1
  | worker w => exact (h.ownWorker w p hp).1

/-- Where no thread can make a step, nothing is on the way. -/
theorem Threads.quiet (ho : Owned s free q owner) (hc : Counted s q) (hstop : ∀ e t, ThreadStep s e t → e.outside = true)
    (hmalloc : ∀ request, s.dispatcher ≠ .noItem request) : s.dispatcher = .idle ∧ ∀ w, s.taken w = s.assignedTo w := by
  have hd : s.dispatcher = .idle := by
    cases hd : s.dispatcher with
    | idle => rfl
    | noItem request => exact absurd hd (hmalloc request)
    | block => cases hstop _ _ (.refill hd)
    | got => cases hstop _ _ (.assign hd)
    | filled => cases hstop _ _ (.push hd)
    | pushed => cases hstop _ _ (.notify hd)
  refine ⟨hd, fun w => ?_⟩
  have hw : s.worker w = .idle := by
    cases hw : s.worker w with
    | idle => rfl
    | woken =>
      cases hhead : (s.newConnQueue w).head with
      | none => cases hstop _ _ (.popEmpty hw hhead)
      | some item => cases hstop _ _ (.pop hw hhead)
    | popped item =>
      obtain ⟨i, hi⟩ := Option.ne_none_iff_exists'.mp (ho.ownWorker w item (hw ▸ List.mem_singleton.mpr rfl)).2
      cases hstop _ _ (.connNew hw hi)
    | served => cases hstop _ _ (.free hw)
  have hpipe : s.pipe w = [] := by
    cases hp : s.pipe w with
    | nil => rfl
    | cons b rest =>
      cases b with
      | conn => cases hstop _ _ (.wake hw hp)
      | lockType => cases hstop _ _ (.wakeLockType hw hp)
  have hbytes := hc.bytes w
  rw [hpipe, hw, hd] at hbytes
  have hq : q w = [] := List.length_eq_zero_iff.mp hbytes
  have horder := hc.order w
  rw [hq, hw, hd] at horder
  simpa [Processing.unserved, Dispatching.filledFor] using horder.symm

/-- What is called is assigned or with the dispatcher. -/
theorem ThreadStep.calls {e : ThreadEvent n} {t : Threads n} (hs : ThreadStep s e t) :
    t.assigned.map Prod.snd ++ t.dispatcher.request = s.assigned.map Prod.snd ++ s.dispatcher.request ++ e.calls := by
  cases hs with
  | callFree hd | callEmpty hd | malloc hd | refill hd | assign hd | notify hd =>
    simp [hd, Dispatching.request, ThreadEvent.calls, Threads.popFreelist, Threads.refill, Threads.setNext, Threads.write]
  | push hd => simp [hd, Dispatching.request, ThreadEvent.calls]
  | lockType | wake | wakeLockType | pop | popEmpty | connNew | free => exact (List.append_nil _).symm

theorem run_calls {ops : List (ThreadEvent n)} {t : Threads n} (hr : Run ThreadStep s ops t) :
    t.assigned.map Prod.snd ++ t.dispatcher.request =
      s.assigned.map Prod.snd ++ s.dispatcher.request ++ ops.flatMap ThreadEvent.calls := by
  induction hr with
  | nil => simp
  | cons hs _ ih => rw [ih, hs.calls, List.flatMap_cons, List.append_assoc]

theorem run_ends {ops : List (ThreadEvent n)} {t : Threads n} (hr : Run ThreadStep s ops t)
    (hin : ∀ e ∈ ops, e.outside = false) : ops.length ≤ s.work := by
  induction hr with
  | nil => exact Nat.zero_le _
  | @cons s u t e ops hs _ ih =>
    have hlt := hs.work_lt (hin e List.mem_cons_self)
    have hle := ih fun e he => hin e (List.mem_cons_of_mem _ he)
    rw [List.length_cons]
    omega

/-- However the threads are interleaved, a worker takes its connections in the order of the calls. -/
theorem connections_dispatched {ops : List (ThreadEvent n)} (hr : Run ThreadStep (Threads.start n) ops s) : ConnsDispatched ops s := by
  obtain ⟨free, q, owner, ho, hc⟩ := hr.invariant (I := Threads.Ok) (fun _ _ _ h hs => hs.ok h) (Threads.start_ok n)
  refine ⟨hc.rotates, (run_calls hr).symm, fun w => ?_, Threads.quiet ho hc, fun _ _ => run_ends, ⟨free, ho.freelist⟩,
    fun w => ⟨q w, ho.queue w, ho.tail w⟩, fun item a b ha hb => Option.some.inj ((ho.isAt ha).symm.trans (ho.isAt hb))⟩
  rw [hc.order w, List.append_assoc, List.append_assoc]
  exact List.prefix_append ..

/-- A connection on its way from the call to the free list. -/
theorem connections_dispatched_first : ∃ s : Threads 1, s.taken 0 = [⟨5, .newCmd, 2, 2048, .tcp⟩] ∧
    ConnsDispatched [.call ⟨5, .newCmd, 2, 2048, .tcp⟩, .malloc 0 fun _ => ⟨⟨0, .closing, 0, 0, .tcp⟩, none⟩, .refill, .assign,
      .push, .notify, .wake 0, .pop 0, .connNew 0, .free 0] s :=
  ⟨_, rfl, connections_dispatched (.cons (.callEmpty rfl rfl) (.cons (.malloc rfl fun _ _ _ => rfl) (.cons (.refill rfl)
    (.cons (.assign rfl) (.cons (.push rfl) (.cons (.notify rfl) (.cons (.wake rfl rfl) (.cons (.pop rfl rfl)
      (.cons (.connNew rfl rfl) (.cons (.free rfl) (.nil _)))))))))))⟩

end

end RamCube
