import Mathlib.Data.Fintype.Card
import RamCube.Server.LockSwitch

/-! # What the item locks keep apart

Each thread's place in its code tells the mutexes it holds. The kind of lock of a worker changes
only between two commands, and the table grows only while every worker uses the lock for all
items: so `item_unlock` finds the mutex that `item_lock` locked. -/
namespace RamCube

variable {ι κ : Type} {n : Nat}

/-! ## The mutexes that a thread holds -/

def Look.held : Look → List Mutex
  | .locked k => [.item k]
  | _ => []

def Work.held (w : Work κ) : List Mutex :=
  w.look.held ++ ((if w.cache then [.cache] else []) ++ w.sect.toList.map Section.mutex)

def WorkerPc.held : WorkerPc κ → List Mutex
  | .command w => w.held
  | _ => []

def MaintenancePc.held : MaintenancePc → List Mutex
  | .lockCache | .unlockGlobal => [.itemGlobal]
  | .bulk _ => [.cache, .itemGlobal]
  | .switch _ (.write _) | .switch _ .await => [.init]
  | .startWait | .awake | .expand | .unlockExpand => [.cache]
  | _ => []

def RebalancePc.held : RebalancePc → List Mutex
  | .waiting => []
  | .running cache look => look.toList.map .item ++ ((if cache then [.cache] else []) ++ [.slabsRebalance])

theorem Work.held_look {w : Work κ} (h : w.look.held = []) : w.held = { w with look := .none }.held := by
  rw [Work.held, h]
  rfl

theorem Work.mem_held {w : Work κ} {m : Mutex} :
    m ∈ w.held ↔ m ∈ w.look.held ∨ (w.cache = true ∧ m = .cache) ∨ ∃ σ ∈ w.sect, σ.mutex = m := by
  simp only [Work.held, List.mem_append, List.mem_map, Option.mem_toList, Option.mem_def]
  refine or_congr_right (or_congr_left ?_)
  cases w.cache <;> simp

namespace LockSystem

def held (s : LockSystem ι κ n) : ThreadId n → List Mutex
  | .worker i => (s.threads i).pc.held
  | .maintenance => s.maintenance.held ++ (if s.paused then [.slabsRebalance] else [])
  | .rebalance => s.rebalance.held

def Owned (s : LockSystem ι κ n) : Prop := MutexesOk s.owner s.held

variable {s t : LockSystem ι κ n} {i : Fin n} {m : Mutex} {pc : WorkerPc κ}

theorem Owned.same (h : s.Owned) (ho : t.owner = s.owner) (hs : ∀ u, t.held u = s.held u) : t.Owned := by
  intro l u
  rw [ho, hs u]
  exact h l u

theorem Owned.acquire (h : s.Owned) (v : ThreadId n) (hfree : s.owner m = none)
    (ho : t.owner = Function.update s.owner m (some v)) (hself : t.held v = m :: s.held v)
    (hother : ∀ u, u ≠ v → t.held u = s.held u) : t.Owned := by
  unfold Owned
  rw [ho]
  exact MutexesOk.acquire h hfree hself hother

theorem Owned.release (h : s.Owned) (v : ThreadId n) (ho : t.owner = Function.update s.owner m none)
    (hself : s.held v = m :: t.held v) (hnot : m ∉ t.held v) (hother : ∀ u, u ≠ v → t.held u = s.held u) : t.Owned := by
  unfold Owned
  rw [ho]
  exact MutexesOk.release h hself hnot hother

/-- A mutex that nobody has is given back. -/
theorem Owned.releaseFree (h : s.Owned) (hfree : s.owner m = none) : (s.release m).Owned :=
  MutexesOk.release_free h hfree

/-! A step of one thread leaves the places of the others. -/

theorem held_worker (ht : ∀ j, j ≠ i → t.threads j = s.threads j) (hm : t.maintenance = s.maintenance)
    (hr : t.rebalance = s.rebalance) (hp : t.paused = s.paused) : ∀ u, u ≠ .worker i → t.held u = s.held u := by
  intro u hu
  cases u with
  | worker j =>
    have hj : j ≠ i := fun he => hu (he ▸ rfl)
    simp only [held, ht j hj]
  | maintenance => simp only [held, hm, hp]
  | rebalance => simp only [held, hr]

theorem held_maintenance (ht : t.threads = s.threads) (hr : t.rebalance = s.rebalance) :
    ∀ u, u ≠ .maintenance → t.held u = s.held u := by
  intro u hu
  cases u with
  | maintenance => exact absurd rfl hu
  | worker => simp only [held, ht]
  | rebalance => simp only [held, hr]

theorem held_rebalance (ht : t.threads = s.threads) (hm : t.maintenance = s.maintenance) (hp : t.paused = s.paused) :
    ∀ u, u ≠ .rebalance → t.held u = s.held u := by
  intro u hu
  cases u with
  | rebalance => exact absurd rfl hu
  | worker => simp only [held, ht]
  | maintenance => simp only [held, hm, hp]

theorem setPc_ne : ∀ j, j ≠ i → (s.setPc i pc).threads j = s.threads j := fun _ hj => Function.update_of_ne hj ..

theorem held_setPc : (s.setPc i pc).held (.worker i) = pc.held := by
  simp only [held, setPc, setThread, Function.update_self]

/-- A worker whose pipe or kind of lock changes. -/
theorem Owned.setThread (h : s.Owned) {thread : LibeventThread κ} (hpc : thread.pc.held = (s.threads i).pc.held) :
    (s.setThread i thread).Owned := by
  refine h.same rfl fun u => ?_
  by_cases hu : u = .worker i
  · rw [hu]
    simp only [held, LockSystem.setThread, Function.update_self, hpc]
  · exact held_worker (t := s.setThread i thread) (fun _ hj => Function.update_of_ne hj ..) rfl rfl rfl u hu

theorem Owned.setPc (h : s.Owned) (hpc : pc.held = (s.threads i).pc.held) : (s.setPc i pc).Owned :=
  h.setThread hpc

theorem Owned.acquirePc (h : s.Owned) (hfree : s.owner m = none) (hpc : pc.held = m :: (s.threads i).pc.held) :
    ((s.acquire m (.worker i)).setPc i pc).Owned :=
  h.acquire (.worker i) hfree rfl (held_setPc.trans hpc) (held_worker setPc_ne rfl rfl rfl)

theorem Owned.releasePc (h : s.Owned) (hpc : (s.threads i).pc.held = m :: pc.held) (hnot : m ∉ pc.held) :
    ((s.release m).setPc i pc).Owned :=
  h.release (.worker i) rfl (hpc.trans (by rw [held_setPc])) (by rwa [held_setPc]) (held_worker setPc_ne rfl rfl rfl)

/-- The maintenance thread moves on. -/
theorem Owned.maintain (h : s.Owned) {pc : MaintenancePc} (hpc : pc.held = s.maintenance.held) : (s.maintain pc).Owned := by
  refine h.same rfl fun u => ?_
  cases u with
  | maintenance =>
    simp only [held, LockSystem.maintain, hpc]
    rfl
  | worker => rfl
  | rebalance => rfl

theorem Owned.acquireMaintain (h : s.Owned) {pc : MaintenancePc} (hfree : s.owner m = none)
    (hpc : pc.held = m :: s.maintenance.held) : ((s.acquire m .maintenance).maintain pc).Owned := by
  refine h.acquire .maintenance hfree rfl ?_ (held_maintenance rfl rfl)
  simp only [held, LockSystem.maintain, hpc, List.cons_append]
  rfl

theorem Owned.releaseMaintain (h : s.Owned) {pc : MaintenancePc} (hpc : s.maintenance.held = m :: pc.held)
    (hnot : m ∉ pc.held) (hm : m ≠ .slabsRebalance) : ((s.release m).maintain pc).Owned := by
  refine h.release .maintenance rfl ?_ ?_ (held_maintenance rfl rfl)
  · simp only [held, LockSystem.maintain, hpc, List.cons_append]
    rfl
  · rw [held, List.mem_append, not_or]
    refine ⟨hnot, fun hin => hm ?_⟩
    split at hin
    · exact List.mem_singleton.mp hin
    · cases hin

end LockSystem

/-! ## A worker in a section -/

section

variable (hash : κ → UInt32)

/-- What a worker that runs a command knows of its locks. -/
structure WorkOk (s : LockSystem ι κ n) (type : ItemLockType) (w : Work κ) : Prop where
  mutex : ∀ σ ∈ w.sect, σ.mutex = s.itemMutex type (hash σ.key)
  look : w.cache = false → w.look = .none
  handle : ∀ k, w.look = .locked k → w.holdLock = some k
  apart : w.cache = true → ∀ σ ∈ w.sect, ∀ k, w.holdLock = some k → σ.mutex ≠ .item k

def SectionsOk (s : LockSystem ι κ n) : Prop :=
  ∀ i w, (s.threads i).pc = .command w → WorkOk hash s (s.threads i).itemLockType w

variable {hash} {s t : LockSystem ι κ n} {i : Fin n} {type : ItemLockType} {w : Work κ}

theorem itemMutex_ne_cache (s : LockSystem ι κ n) (type : ItemLockType) (hv : UInt32) : s.itemMutex type hv ≠ .cache := by
  cases type <;> simp [LockSystem.itemMutex]

theorem workOk_start : WorkOk hash s type .start where
  mutex := by intro σ hσ; cases hσ
  look := by intro _; rfl
  handle := by intro k hk; cases hk
  apart := by intro hc; cases hc

/-- The mutex of a hash value depends on the size of the table only, and with one lock for all
items not even on that. -/
theorem WorkOk.transfer (h : WorkOk hash s type w)
    (hp : type = .granular → t.assoc.hashpower = s.assoc.hashpower) : WorkOk hash t type w where
  mutex := by
    intro σ hσ
    rw [h.mutex σ hσ]
    cases type with
    | granular => simp only [LockSystem.itemMutex, LockSystem.itemLockOf, bucket, hp rfl]
    | global => rfl
  look := h.look
  handle := h.handle
  apart := h.apart

theorem SectionsOk.transfer (h : SectionsOk hash s) (ht : t.threads = s.threads)
    (hp : (∃ i, (s.threads i).itemLockType = .granular) → t.assoc.hashpower = s.assoc.hashpower) : SectionsOk hash t := by
  intro i w hpc
  rw [ht] at hpc ⊢
  exact (h i w hpc).transfer fun hg => hp ⟨i, hg⟩

/-- One worker moves on. -/
theorem SectionsOk.setThread (h : SectionsOk hash s) (thread : LibeventThread κ) (ht : t.assoc.hashpower = s.assoc.hashpower)
    (hthreads : t.threads = Function.update s.threads i thread)
    (hw : ∀ w, thread.pc = .command w → WorkOk hash t thread.itemLockType w) : SectionsOk hash t := by
  intro j w hpc
  rw [hthreads] at hpc ⊢
  by_cases hj : j = i
  · subst hj
    rw [Function.update_self] at hpc ⊢
    exact hw w hpc
  · rw [Function.update_of_ne hj] at hpc ⊢
    exact (h j w hpc).transfer fun _ => ht

/-- A worker that looks at an item has no other item lock than this one, its section's apart. -/
theorem WorkOk.look_of_held (h : WorkOk hash s type w) (hc : w.cache = true) {k : Nat} (hk : w.holdLock = some k)
    (hm : .item k ∈ w.held) : w.look = .locked k := by
  rcases Work.mem_held.mp hm with hm | ⟨_, hm⟩ | ⟨σ, hσ, hm⟩
  · cases hl : w.look with
    | locked k' =>
      rw [hl, Look.held, List.mem_singleton, Mutex.item.injEq] at hm
      rw [hm]
    | none => rw [hl] at hm; cases hm
    | same => rw [hl] at hm; cases hm
  · cases hm
  · exact absurd hm (h.apart hc σ hσ k hk)

/-- A mutex of an item that the worker looks at without holding it. -/
theorem WorkOk.held_look (h : WorkOk hash s type w) (hn : ∀ k, w.holdLock = some k → .item k ∉ w.held) : w.look.held = [] := by
  cases hl : w.look with
  | locked k =>
    refine absurd (Work.mem_held.mpr (.inl ?_)) (hn k (h.handle k hl))
    rw [hl]
    exact List.mem_singleton.mpr rfl
  | none => rfl
  | same => rfl

/-- The handle of a walk is given back. -/
theorem LockSystem.Owned.lookEnd (h : s.Owned) (hpc : (s.threads i).pc = .command w)
    (hw : WorkOk hash s (s.threads i).itemLockType w) (hl : w.look ≠ .none)
    (hown : ∀ k, w.holdLock = some k → ∀ u, s.owner (.item k) = some u → u = .worker i) :
    ((s.giveBack w.holdLock).setPc i (.command { w with look := .none })).Owned := by
  have hheld : s.held (.worker i) = w.held := by simp only [LockSystem.held, hpc, WorkerPc.held]
  cases hh : w.holdLock with
  | none =>
    have hsame : w.look.held = [] := hw.held_look fun k hk => by rw [hh] at hk; cases hk
    refine h.setPc ?_
    rw [hpc]
    exact (Work.held_look hsame).symm
  | some k =>
    cases ho : s.owner (.item k) with
    | none =>
      have hsame : w.look.held = [] := hw.held_look fun k' hk' => by
        obtain rfl := Option.some.inj (hh.symm.trans hk')
        exact hheld ▸ h.not_held ho
      refine (h.releaseFree ho).setPc ?_
      rw [show ((s.release (.item k)).threads i).pc = .command w from hpc]
      exact (Work.held_look hsame).symm
    | some u =>
      obtain rfl := hown k hh u ho
      have hcache : w.cache = true := by
        by_contra hc
        exact hl (hw.look (by simpa using hc))
      have hk : w.look = .locked k := hw.look_of_held hcache hh (hheld ▸ (h _ _).mp ho)
      refine h.releasePc ?_ ?_
      · rw [hpc]
        simp only [WorkerPc.held, Work.held, hk, Look.held, List.singleton_append, List.nil_append]
      · rw [WorkerPc.held, Work.mem_held]
        rintro (hm | ⟨_, hm⟩ | ⟨σ, hσ, hm⟩)
        · cases hm
        · cases hm
        · exact hw.apart hcache σ hσ k hh hm

end

/-! ## A step and the mutexes -/

section

variable [DecidableEq κ] {hash : κ → UInt32} {keyOf : ι → κ} {hashBulkMove : Int} {s t : LockSystem ι κ n}
  {i : Fin n} {e : LockEvent ι κ n} {ok : Bool}

theorem LibeventStep.owned (hs : LibeventStep hash keyOf s i e t) (h : s.Owned) (hok : SectionsOk hash s)
    (hown : GivesBackOwn s e) : t.Owned := by
  cases hs with
  | @readPipe b rest hpc =>
    refine h.setThread ?_
    rw [hpc]
    cases b with
    | conn => simp only [threadLibeventProcess, hpc]
    | lockType granular => cases granular <;> rfl
  | register hpc => exact h.setPc (by rw [hpc]; rfl)
  | startCommand hpc => exact h.setPc (by rw [hpc]; rfl)
  | @endCommand w hpc hsect hcache =>
    refine h.setPc ?_
    rw [hpc]
    simp only [WorkerPc.held, Work.held, (hok i w hpc).look hcache, Look.held, hcache, hsect]
    rfl
  | @itemLock w key hpc hsect hcache hfree =>
    refine h.acquirePc hfree ?_
    rw [hpc]
    simp [WorkerPc.held, Work.held, (hok i w hpc).look hcache, Look.held, hcache, hsect]
  | @itemUnlock w σ hpc hsect hcache =>
    have hw := hok i w hpc
    have hσ : σ.mutex = s.itemMutex (s.threads i).itemLockType (hash σ.key) := hw.mutex σ (by rw [hsect]; rfl)
    rw [← hσ]
    refine h.releasePc ?_ ?_
    · rw [hpc]
      simp [WorkerPc.held, Work.held, hw.look hcache, Look.held, hcache, hsect]
    · simp [WorkerPc.held, Work.held, hw.look hcache, Look.held, hcache]
  | @lockCache w hpc hcache hfree =>
    refine h.acquirePc hfree ?_
    rw [hpc]
    simp [WorkerPc.held, Work.held, (hok i w hpc).look hcache, Look.held, hcache]
  | @unlockCache w hpc hcache hlook =>
    refine h.releasePc ?_ ?_
    · rw [hpc]
      simp [WorkerPc.held, Work.held, hlook, Look.held, hcache]
    · rw [WorkerPc.held, Work.mem_held]
      rintro (hm | ⟨hc, _⟩ | ⟨σ, hσ, hm⟩)
      · rw [hlook] at hm
        cases hm
      · cases hc
      · exact itemMutex_ne_cache s _ _ (((hok i w hpc).mutex σ hσ).symm.trans hm)
  | @lookSame w hv hpc _ hlook =>
    refine h.setPc ?_
    rw [hpc]
    simp only [WorkerPc.held, Work.held, hlook, Look.held]
  | @lookLocked w hv hpc _ hlook _ hfree =>
    refine h.acquirePc hfree ?_
    rw [hpc]
    simp [WorkerPc.held, Work.held, hlook, Look.held]
  | @lookBusy w hv hpc _ hlook =>
    refine h.setPc ?_
    rw [hpc]
    simp only [WorkerPc.held, Work.held]
  | @lookEnd w hpc hlook =>
    refine h.lookEnd hpc (hok i w hpc) hlook fun k hk u hu => hown (.worker i, .item k) ?_ u hu
    simp [LockSystem.givenBack, hpc, hk]
  | link => exact h
  | unlink => exact h

omit [DecidableEq κ] in
theorem MaintenanceStep.owned (hs : MaintenanceStep hash keyOf hashBulkMove s ok t) (h : s.Owned)
    (hown : GivesBackOwn s (.maintain ok)) : t.Owned := by
  cases hs with
  | lockGlobal hm hfree => exact h.acquireMaintain hfree (by rw [hm]; rfl)
  | lockCache hm hfree => exact h.acquireMaintain hfree (by rw [hm]; rfl)
  | @move ii hm => exact (h.maintain (by rw [hm]; rfl) : (s.maintain (.bulk (ii + 1))).Owned)
  | moved hm => exact h.releaseMaintain (by rw [hm]; rfl) (by simp [MaintenancePc.held]) (by simp)
  | unlockGlobal hm => exact h.releaseMaintain (by rw [hm]; rfl) (by simp [MaintenancePc.held]) (by simp)
  | more hm => exact h.maintain (by rw [hm]; rfl)
  | done hm => exact h.maintain (by rw [hm]; rfl)
  | @lockInit type hm hfree =>
    have hwrite : ((s.acquire .init .maintenance).maintain (.switch type (.write 0))).Owned :=
      h.acquireMaintain hfree (by rw [hm]; rfl)
    exact hwrite
  | @write type k hk hm =>
    cases ok with
    | true =>
      have hw : (s.write ⟨k, hk⟩ type.byte).Owned := h.setThread rfl
      refine hw.maintain ?_
      rw [show (s.write ⟨k, hk⟩ type.byte).maintenance = s.maintenance from rfl, hm]
      rfl
    | false => exact h.maintain (by rw [hm]; rfl)
  | written hm => exact h.maintain (by rw [hm]; rfl)
  | wait hm => exact h.releaseMaintain (by rw [hm]; rfl) (by simp [MaintenancePc.held]) (by simp)
  | wake hm hfree => exact h.acquireMaintain hfree (by rw [hm]; rfl)
  | @switched type hm =>
    cases type with
    | granular => exact h.releaseMaintain (by rw [hm]; rfl) (by simp [MaintenancePc.held]) (by simp)
    | global => exact h.releaseMaintain (by rw [hm]; rfl) (by simp [MaintenancePc.held]) (by simp)
  | resume hm =>
    cases hp : s.paused with
    | true =>
      refine h.release .maintenance rfl ?_ ?_ (LockSystem.held_maintenance rfl rfl)
      · simp [LockSystem.held, LockSystem.maintain, hm, hp, MaintenancePc.held]
      · simp [LockSystem.held, LockSystem.maintain, MaintenancePc.held]
    | false =>
      have hnone : s.held .maintenance = [] := by simp [LockSystem.held, hm, hp, MaintenancePc.held]
      have hfree : s.owner .slabsRebalance = none := by
        cases ho : s.owner .slabsRebalance with
        | none => rfl
        | some u =>
          obtain rfl := hown (.maintenance, .slabsRebalance) (by simp [LockSystem.givenBack, hm]) u ho
          have hheld := (h _ _).mp ho
          rw [hnone] at hheld
          cases hheld
      refine (h.releaseFree hfree).same rfl fun u => ?_
      cases u with
      | maintenance => exact hnone.symm
      | worker => rfl
      | rebalance => rfl
  | lockIdle hm hfree => exact h.acquireMaintain hfree (by rw [hm]; rfl)
  | startWait hm =>
    have hidle : ((s.release .cache).maintain .idle).Owned :=
      h.releaseMaintain (by rw [hm]; rfl) (by simp [MaintenancePc.held]) (by simp)
    exact hidle
  | idle hm hfree => exact h.acquireMaintain hfree (by rw [hm]; rfl)
  | awake hm => exact h.releaseMaintain (by rw [hm]; rfl) (by simp [MaintenancePc.held]) (by simp)
  | pause hm hfree =>
    have hp : s.paused = false := by
      cases hp : s.paused with
      | false => rfl
      | true =>
        refine absurd ?_ (h.not_held (t := .maintenance) hfree)
        simp [LockSystem.held, hp]
    refine h.acquire .maintenance hfree rfl ?_ (LockSystem.held_maintenance rfl rfl)
    simp [LockSystem.held, LockSystem.maintain, hm, hp, MaintenancePc.held]
  | lockExpand hm hfree => exact h.acquireMaintain hfree (by rw [hm]; rfl)
  | expand hm => exact (h.maintain (by rw [hm]; rfl) : (s.maintain .unlockExpand).Owned)
  | unlockExpand hm => exact h.releaseMaintain (by rw [hm]; rfl) (by simp [MaintenancePc.held]) (by simp)

theorem RebalanceStep.owned (hs : RebalanceStep hash keyOf s e t) (h : s.Owned) : t.Owned := by
  cases hs with
  | wake hr hfree =>
    exact h.acquire .rebalance hfree rfl (by simp [LockSystem.held, hr, RebalancePc.held]) (LockSystem.held_rebalance rfl rfl rfl)
  | lockCache hr hfree =>
    exact h.acquire .rebalance hfree rfl (by simp [LockSystem.held, hr, RebalancePc.held]) (LockSystem.held_rebalance rfl rfl rfl)
  | look hr hfree =>
    exact h.acquire .rebalance hfree rfl (by simp [LockSystem.held, hr, RebalancePc.held]) (LockSystem.held_rebalance rfl rfl rfl)
  | lookBusy => exact h
  | unlink => exact h
  | lookEnd hr =>
    exact h.release .rebalance rfl (by simp [LockSystem.held, hr, RebalancePc.held]) (by simp [LockSystem.held, RebalancePc.held])
      (LockSystem.held_rebalance rfl rfl rfl)
  | unlockCache hr =>
    exact h.release .rebalance rfl (by simp [LockSystem.held, hr, RebalancePc.held]) (by simp [LockSystem.held, RebalancePc.held])
      (LockSystem.held_rebalance rfl rfl rfl)
  | wait hr =>
    exact h.release .rebalance rfl (by simp [LockSystem.held, hr, RebalancePc.held]) (by simp [LockSystem.held, RebalancePc.held])
      (LockSystem.held_rebalance rfl rfl rfl)

theorem LockStep.owned (hs : LockStep hash keyOf hashBulkMove s e t) (h : s.Owned) (hok : SectionsOk hash s)
    (hown : GivesBackOwn s e) : t.Owned := by
  cases hs with
  | notify i => exact h.setThread rfl
  | worker hw => exact hw.owned h hok hown
  | maintenance hm => exact hm.owned h hown
  | rebalance hr => exact hr.owned h

end

end RamCube
