import RamCube.Lib.Mutex
import RamCube.Server.Dispatch
import RamCube.Store.Allocating

/-! # The two kinds of item locks (thread.c, assoc.c)

A worker locks an item by the lock of its hash value, or by one lock for all items while the
table grows. `assoc_maintenance_thread` tells the workers over their pipes which kind to use and
waits until each has reported in. A step is what one thread does between two points where
another can see it. -/
namespace RamCube

variable {ι κ : Type} {n : Nat}

inductive ItemLockType where
  | granular
  | global
deriving DecidableEq

inductive Mutex where
  /-- of `item_locks` -/
  | item (i : Nat)
  | itemGlobal
  | cache
  | init
  | slabsRebalance
deriving DecidableEq

inductive ThreadId (n : Nat) where
  | worker (i : Fin n)
  | maintenance
  | rebalance
deriving DecidableEq

/-- From `item_lock` to `item_unlock`. -/
structure Section (κ : Type) where
  key : κ
  /-- what `item_lock` locked -/
  mutex : Mutex

/-- The item that a walk looks at: of the hash value of the caller, or locked for the walk. -/
inductive Look where
  | none
  | same
  | locked (i : Nat)
deriving DecidableEq

/-- What a worker has that runs a command. -/
structure Work (κ : Type) where
  sect : Option (Section κ)
  /-- `cache_lock` -/
  cache : Bool
  /-- `hold_lock` -/
  holdLock : Option Nat
  look : Look

def Work.start : Work κ := ⟨none, false, none, .none⟩

inductive WorkerPc (κ : Type) where
  | eventLoop
  /-- in `register_thread_initialized` -/
  | registering
  | command (w : Work κ)

/-- `LIBEVENT_THREAD` -/
structure LibeventThread (κ : Type) where
  itemLockType : ItemLockType
  pipe : List PipeByte
  pc : WorkerPc κ

inductive SwitchPc where
  | lockInit
  /-- the workers before this one have been written to -/
  | write (i : Nat)
  | await
  /-- in `pthread_cond_wait` on `init_cond` -/
  | blocked

/-- Where `assoc_maintenance_thread` is: at the call that the name tells. -/
inductive MaintenancePc where
  | lockGlobal
  | lockCache
  | bulk (ii : Nat)
  | unlockGlobal
  | testExpanding
  | switch (type : ItemLockType) (at' : SwitchPc)
  | resume
  | lockIdle
  | startWait
  /-- in `pthread_cond_wait` on `maintenance_cond` -/
  | idle
  | awake
  | pause
  | lockExpand
  | expand
  | unlockExpand

inductive RebalancePc where
  /-- before `slab_rebalance_thread` has its lock, or in `pthread_cond_wait` -/
  | waiting
  | running (cache : Bool) (look : Option Nat)

structure LockSystem (ι κ : Type) (n : Nat) where
  owner : Mutex → Option (ThreadId n)
  threads : Fin n → LibeventThread κ
  maintenance : MaintenancePc
  rebalance : RebalancePc
  initCount : Nat
  assoc : Assoc ι
  /-- whether `slabs_rebalancer_pause` was called and not yet `slabs_rebalancer_resume` -/
  paused : Bool

/-- The steps of worker `i`, of the maintenance thread and of the page mover. A step of the
maintenance thread is told whether its `write` or `calloc` succeeds. -/
inductive LockEvent (ι κ : Type) (n : Nat) where
  | notify (i : Fin n)
  | readPipe (i : Fin n)
  | register (i : Fin n)
  | startCommand (i : Fin n)
  | endCommand (i : Fin n)
  | itemLock (i : Fin n) (key : κ)
  | itemUnlock (i : Fin n)
  | lockCache (i : Fin n)
  | unlockCache (i : Fin n)
  | look (i : Fin n) (hv : UInt32)
  | lookEnd (i : Fin n)
  | link (i : Fin n) (it : ι)
  | unlink (i : Fin n) (key : κ)
  | maintain (ok : Bool)
  | wakeRebalance
  | lockCacheRebalance
  | lookRebalance (hv : UInt32)
  | lookEndRebalance
  | unlinkRebalance (key : κ)
  | unlockCacheRebalance
  | waitRebalance

def ItemLockType.byte (type : ItemLockType) : PipeByte := .lockType (decide (type = .granular))

/-- What a worker does with a byte of its pipe: of a connection it takes, this model keeps nothing. -/
def threadLibeventProcess (thread : LibeventThread κ) : PipeByte → LibeventThread κ
  | .conn => thread
  | .lockType true => { thread with itemLockType := .granular, pc := .registering }
  | .lockType false => { thread with itemLockType := .global, pc := .registering }

namespace LockSystem

variable (s : LockSystem ι κ n)

/-- The lock of `item_locks` for a hash value. -/
def itemLockOf (hv : UInt32) : Nat := bucket s.assoc hv % itemLockCount n

/-- The mutex that `item_lock` and `item_unlock` use. -/
def itemMutex (type : ItemLockType) (hv : UInt32) : Mutex :=
  match type with
  | .granular => .item (s.itemLockOf hv)
  | .global => .itemGlobal

def acquire (m : Mutex) (t : ThreadId n) : LockSystem ι κ n := { s with owner := Function.update s.owner m (some t) }

/-- `pthread_mutex_unlock`, whoever calls it. -/
def release (m : Mutex) : LockSystem ι κ n := { s with owner := Function.update s.owner m none }

def setThread (i : Fin n) (thread : LibeventThread κ) : LockSystem ι κ n :=
  { s with threads := Function.update s.threads i thread }

def setPc (i : Fin n) (pc : WorkerPc κ) : LockSystem ι κ n := s.setThread i { s.threads i with pc := pc }

def maintain (pc : MaintenancePc) : LockSystem ι κ n := { s with maintenance := pc }

def write (i : Fin n) (b : PipeByte) : LockSystem ι κ n :=
  s.setThread i { s.threads i with pipe := (s.threads i).pipe ++ [b] }

/-- `item_trylock_unlock(hold_lock)` where the handle is set. -/
def giveBack (holdLock : Option Nat) : LockSystem ι κ n :=
  match holdLock with
  | none => s
  | some i => s.release (.item i)

/-- After `thread_init`, when every worker has reported in. -/
def start (hashpower n : Nat) : LockSystem ι κ n where
  owner _ := none
  threads _ := ⟨.granular, [], .eventLoop⟩
  maintenance := .lockGlobal
  rebalance := .waiting
  initCount := n
  assoc := assocInit hashpower
  paused := false

end LockSystem

/-- `cur_hv`, which `item_alloc` gives as zero. -/
def Work.curHv (hash : κ → UInt32) (w : Work κ) : UInt32 :=
  match w.sect with
  | none => 0
  | some σ => hash σ.key

section

variable [DecidableEq κ] (hash : κ → UInt32) (keyOf : ι → κ) (hashBulkMove : Int)

/-- A step of a worker. -/
inductive LibeventStep (s : LockSystem ι κ n) (i : Fin n) : LockEvent ι κ n → LockSystem ι κ n → Prop where
  | readPipe {b : PipeByte} {rest : List PipeByte} : (s.threads i).pc = .eventLoop → (s.threads i).pipe = b :: rest →
      LibeventStep s i (.readPipe i) (s.setThread i (threadLibeventProcess { s.threads i with pipe := rest } b))
  | register : (s.threads i).pc = .registering → s.owner .init = none →
      LibeventStep s i (.register i) { s.setPc i .eventLoop with initCount := s.initCount + 1 }
  | startCommand : (s.threads i).pc = .eventLoop → LibeventStep s i (.startCommand i) (s.setPc i (.command .start))
  | endCommand {w : Work κ} : (s.threads i).pc = .command w → w.sect = none → w.cache = false →
      LibeventStep s i (.endCommand i) (s.setPc i .eventLoop)
  | itemLock {w : Work κ} {key : κ} : (s.threads i).pc = .command w → w.sect = none → w.cache = false →
      s.owner (s.itemMutex (s.threads i).itemLockType (hash key)) = none →
      LibeventStep s i (.itemLock i key) ((s.acquire (s.itemMutex (s.threads i).itemLockType (hash key)) (.worker i)).setPc i
        (.command { w with sect := some ⟨key, s.itemMutex (s.threads i).itemLockType (hash key)⟩ }))
  | itemUnlock {w : Work κ} {σ : Section κ} : (s.threads i).pc = .command w → w.sect = some σ → w.cache = false →
      LibeventStep s i (.itemUnlock i) ((s.release (s.itemMutex (s.threads i).itemLockType (hash σ.key))).setPc i
        (.command { w with sect := none }))
  | lockCache {w : Work κ} : (s.threads i).pc = .command w → w.cache = false → s.owner .cache = none →
      LibeventStep s i (.lockCache i) ((s.acquire .cache (.worker i)).setPc i
        (.command { w with cache := true, holdLock := none }))
  | unlockCache {w : Work κ} : (s.threads i).pc = .command w → w.cache = true → w.look = .none →
      LibeventStep s i (.unlockCache i) ((s.release .cache).setPc i (.command { w with cache := false }))
  | lookSame {w : Work κ} {hv : UInt32} : (s.threads i).pc = .command w → w.cache = true → w.look = .none →
      hv = w.curHv hash →
      LibeventStep s i (.look i hv) (s.setPc i (.command { w with look := .same }))
  | lookLocked {w : Work κ} {hv : UInt32} : (s.threads i).pc = .command w → w.cache = true → w.look = .none →
      hv ≠ w.curHv hash → s.owner (.item (s.itemLockOf hv)) = none →
      LibeventStep s i (.look i hv) ((s.acquire (.item (s.itemLockOf hv)) (.worker i)).setPc i
        (.command { w with holdLock := some (s.itemLockOf hv), look := .locked (s.itemLockOf hv) }))
  | lookBusy {w : Work κ} {hv : UInt32} : (s.threads i).pc = .command w → w.cache = true → w.look = .none →
      hv ≠ w.curHv hash → s.owner (.item (s.itemLockOf hv)) ≠ none →
      LibeventStep s i (.look i hv) (s.setPc i (.command { w with holdLock := none }))
  | lookEnd {w : Work κ} : (s.threads i).pc = .command w → w.look ≠ .none →
      LibeventStep s i (.lookEnd i) ((s.giveBack w.holdLock).setPc i (.command { w with look := .none }))
  | link {w : Work κ} {σ : Section κ} {it : ι} : (s.threads i).pc = .command w → w.sect = some σ → w.cache = true →
      keyOf it = σ.key →
      LibeventStep s i (.link i it) { s with assoc := assocInsert s.assoc it (hash (keyOf it)) }
  | unlink {w : Work κ} {key : κ} : (s.threads i).pc = .command w →
      (w.cache = true ∨ ∃ σ, w.sect = some σ ∧ σ.key = key) →
      LibeventStep s i (.unlink i key) { s with assoc := assocDelete keyOf s.assoc key (hash key) }

/-- A step of `assoc_maintenance_thread`. -/
inductive MaintenanceStep (s : LockSystem ι κ n) (ok : Bool) : LockSystem ι κ n → Prop where
  | lockGlobal : s.maintenance = .lockGlobal → s.owner .itemGlobal = none →
      MaintenanceStep s ok ((s.acquire .itemGlobal .maintenance).maintain .lockCache)
  | lockCache : s.maintenance = .lockCache → s.owner .cache = none →
      MaintenanceStep s ok ((s.acquire .cache .maintenance).maintain (.bulk 0))
  | move {ii : Nat} : s.maintenance = .bulk ii → (ii : Int) < hashBulkMove → s.assoc.expanding = true →
      MaintenanceStep s ok { s.maintain (.bulk (ii + 1)) with assoc := migrateBucket hash keyOf s.assoc }
  | moved {ii : Nat} : s.maintenance = .bulk ii → ¬((ii : Int) < hashBulkMove ∧ s.assoc.expanding = true) →
      MaintenanceStep s ok ((s.release .cache).maintain .unlockGlobal)
  | unlockGlobal : s.maintenance = .unlockGlobal →
      MaintenanceStep s ok ((s.release .itemGlobal).maintain .testExpanding)
  | more : s.maintenance = .testExpanding → s.assoc.expanding = true → MaintenanceStep s ok (s.maintain .lockGlobal)
  | done : s.maintenance = .testExpanding → s.assoc.expanding = false →
      MaintenanceStep s ok (s.maintain (.switch .granular .lockInit))
  | lockInit {type : ItemLockType} : s.maintenance = .switch type .lockInit → s.owner .init = none →
      MaintenanceStep s ok { (s.acquire .init .maintenance).maintain (.switch type (.write 0)) with initCount := 0 }
  | write {type : ItemLockType} {k : Nat} (hk : k < n) : s.maintenance = .switch type (.write k) →
      MaintenanceStep s ok ((if ok then s.write ⟨k, hk⟩ type.byte else s).maintain (.switch type (.write (k + 1))))
  | written {type : ItemLockType} {k : Nat} : s.maintenance = .switch type (.write k) → n ≤ k →
      MaintenanceStep s ok (s.maintain (.switch type .await))
  | wait {type : ItemLockType} : s.maintenance = .switch type .await → s.initCount < n →
      MaintenanceStep s ok ((s.release .init).maintain (.switch type .blocked))
  | wake {type : ItemLockType} : s.maintenance = .switch type .blocked → s.owner .init = none →
      MaintenanceStep s ok ((s.acquire .init .maintenance).maintain (.switch type .await))
  | switched {type : ItemLockType} : s.maintenance = .switch type .await → n ≤ s.initCount →
      MaintenanceStep s ok ((s.release .init).maintain (match type with
        | .granular => .resume
        | .global => .lockExpand))
  | resume : s.maintenance = .resume →
      MaintenanceStep s ok { (s.release .slabsRebalance).maintain .lockIdle with paused := false }
  | lockIdle : s.maintenance = .lockIdle → s.owner .cache = none →
      MaintenanceStep s ok ((s.acquire .cache .maintenance).maintain .startWait)
  | startWait : s.maintenance = .startWait →
      MaintenanceStep s ok { (s.release .cache).maintain .idle with assoc := { s.assoc with startedExpanding := false } }
  | idle : s.maintenance = .idle → s.owner .cache = none →
      MaintenanceStep s ok ((s.acquire .cache .maintenance).maintain .awake)
  | awake : s.maintenance = .awake → MaintenanceStep s ok ((s.release .cache).maintain .pause)
  | pause : s.maintenance = .pause → s.owner .slabsRebalance = none →
      MaintenanceStep s ok { (s.acquire .slabsRebalance .maintenance).maintain (.switch .global .lockInit) with paused := true }
  | lockExpand : s.maintenance = .lockExpand → s.owner .cache = none →
      MaintenanceStep s ok ((s.acquire .cache .maintenance).maintain .expand)
  | expand : s.maintenance = .expand →
      MaintenanceStep s ok { s.maintain .unlockExpand with assoc := assocExpand s.assoc ok }
  | unlockExpand : s.maintenance = .unlockExpand → MaintenanceStep s ok ((s.release .cache).maintain .lockGlobal)

/-- A step of `slab_rebalance_thread`. -/
inductive RebalanceStep (s : LockSystem ι κ n) : LockEvent ι κ n → LockSystem ι κ n → Prop where
  | wake : s.rebalance = .waiting → s.owner .slabsRebalance = none →
      RebalanceStep s .wakeRebalance { s.acquire .slabsRebalance .rebalance with rebalance := .running false none }
  | lockCache : s.rebalance = .running false none → s.owner .cache = none →
      RebalanceStep s .lockCacheRebalance { s.acquire .cache .rebalance with rebalance := .running true none }
  | look {hv : UInt32} : s.rebalance = .running true none → s.owner (.item (s.itemLockOf hv)) = none →
      RebalanceStep s (.lookRebalance hv)
        { s.acquire (.item (s.itemLockOf hv)) .rebalance with rebalance := .running true (some (s.itemLockOf hv)) }
  | lookBusy {hv : UInt32} : s.rebalance = .running true none → s.owner (.item (s.itemLockOf hv)) ≠ none →
      RebalanceStep s (.lookRebalance hv) s
  | unlink {i : Nat} {key : κ} : s.rebalance = .running true (some i) →
      RebalanceStep s (.unlinkRebalance key) { s with assoc := assocDelete keyOf s.assoc key (hash key) }
  | lookEnd {i : Nat} : s.rebalance = .running true (some i) →
      RebalanceStep s .lookEndRebalance { s.release (.item i) with rebalance := .running true none }
  | unlockCache : s.rebalance = .running true none →
      RebalanceStep s .unlockCacheRebalance { s.release .cache with rebalance := .running false none }
  | wait : s.rebalance = .running false none →
      RebalanceStep s .waitRebalance { s.release .slabsRebalance with rebalance := .waiting }

/-- One step of one thread. -/
inductive LockStep (s : LockSystem ι κ n) : LockEvent ι κ n → LockSystem ι κ n → Prop where
  | notify (i : Fin n) : LockStep s (.notify i) (s.write i .conn)
  | worker {i : Fin n} {e : LockEvent ι κ n} {t : LockSystem ι κ n} : LibeventStep hash keyOf s i e t → LockStep s e t
  | maintenance {ok : Bool} {t : LockSystem ι κ n} : MaintenanceStep hash keyOf hashBulkMove s ok t → LockStep s (.maintain ok) t
  | rebalance {e : LockEvent ι κ n} {t : LockSystem ι κ n} : RebalanceStep hash keyOf s e t → LockStep s e t

end

/-- The mutexes a step gives back. -/
def LockSystem.givenBack (s : LockSystem ι κ n) : LockEvent ι κ n → List (ThreadId n × Mutex)
  | .lookEnd i =>
    match (s.threads i).pc with
    | .command w => w.holdLock.toList.map fun k => (.worker i, .item k)
    | _ => []
  | .maintain _ =>
    match s.maintenance with
    | .resume => [(.maintenance, .slabsRebalance)]
    | _ => []
  | _ => []

/-- The handle of a walk and the first `slabs_rebalancer_resume` do not give back what another
thread has. -/
def GivesBackOwn (s : LockSystem ι κ n) (e : LockEvent ι κ n) : Prop :=
  ∀ g ∈ s.givenBack e, ∀ t, s.owner g.2 = some t → t = g.1

end RamCube
