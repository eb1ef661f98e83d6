import RamCube.Server.LockSections

/-! # A change of the item locks reaches every worker

Between two changes all workers use one kind of lock, and while a change goes on each worker has
the byte still in its pipe, is about to report in, or has reported. The maintenance thread goes
on when the reports are as many as the workers, and so all of them have changed. -/
namespace RamCube

variable {ι κ : Type} {n : Nat}

def PipeByte.isLockType : PipeByte → Bool
  | .lockType _ => true
  | .conn => false

def WorkerPc.isRegistering : WorkerPc κ → Bool
  | .registering => true
  | _ => false

/-- From the change to the lock for all items to the growing of the table. -/
def MaintenancePc.isGlobal : MaintenancePc → Bool
  | .switch .global _ | .lockExpand | .expand => true
  | _ => false

namespace LibeventThread

variable (thread : LibeventThread κ)

/-- The changes of its lock that a worker has yet to read. -/
def told : List PipeByte := thread.pipe.filter PipeByte.isLockType

def Quiet : Prop := thread.told = [] ∧ thread.pc.isRegistering = false

def Reported (type : ItemLockType) : Prop := thread.Quiet ∧ thread.itemLockType = type

/-- A worker on the way to a change has the byte in its pipe, is to report in, or is quiet. -/
structure OnTheWay (type : ItemLockType) : Prop where
  told : thread.told = [] ∨ (thread.told = [type.byte] ∧ thread.pc.isRegistering = false)
  registering : thread.pc.isRegistering = true → thread.itemLockType = type

end LibeventThread

namespace LockSystem

variable (s : LockSystem ι κ n)

/-- All workers use one kind of lock, and none is told otherwise. -/
def Settled (type : ItemLockType) : Prop := ∀ i, (s.threads i).Reported type

open Classical in
noncomputable def reported (type : ItemLockType) : Finset (Fin n) :=
  Finset.univ.filter fun i => (s.threads i).Reported type

/-- A change to one kind of lock is on its way. -/
structure Switching (type : ItemLockType) : Prop where
  workers : ∀ i, (s.threads i).OnTheWay type
  count : s.initCount ≤ (s.reported type).card

/-- What holds of the workers at each place of the maintenance thread. -/
def SwitchOk : Prop :=
  match s.maintenance with
  | .lockGlobal | .lockCache | .bulk _ | .unlockGlobal | .testExpanding | .unlockExpand =>
    ∃ type, s.Settled type ∧ (s.assoc.expanding = true → type = .global)
  | .switch _ .lockInit => s.assoc.expanding = false ∧ ∃ old, s.Settled old
  | .switch type (.write k) => s.assoc.expanding = false ∧ s.Switching type ∧ s.initCount = 0 ∧
      ∀ i : Fin n, k ≤ i → (s.threads i).Quiet
  | .switch type .await | .switch type .blocked => s.assoc.expanding = false ∧ s.Switching type
  | .resume | .lockIdle | .startWait | .idle | .awake | .pause => s.assoc.expanding = false ∧ s.Settled .granular
  | .lockExpand | .expand => s.assoc.expanding = false ∧ s.Settled .global

/-- The page mover is paused whenever a worker may use the lock for all items. -/
structure PausedOk : Prop where
  granular : s.paused = false → ∀ i, (s.threads i).itemLockType = .granular ∧ .lockType false ∉ (s.threads i).pipe
  global : s.maintenance.isGlobal = true → s.paused = true
  expanding : s.assoc.expanding = true → s.paused = true

end LockSystem

/-! ## What a worker's step is to a change -/

section

variable {hash : κ → UInt32} {keyOf : ι → κ} {hashBulkMove : Int} {s t : LockSystem ι κ n}
  {i : Fin n} {e : LockEvent ι κ n} {ok : Bool} {type : ItemLockType} {thread thread' : LibeventThread κ}

/-- A worker goes on, reads that it is to change its lock, or reports in; the number is what it
adds to `init_count`. -/
inductive Progress (thread thread' : LibeventThread κ) : Nat → Prop where
  | goes : thread'.told = thread.told → thread'.itemLockType = thread.itemLockType →
      thread'.pc.isRegistering = thread.pc.isRegistering → (∀ b ∈ thread'.pipe, b ∈ thread.pipe ∨ b = .conn) →
      Progress thread thread' 0
  | reads {type : ItemLockType} : thread.pipe = type.byte :: thread'.pipe → thread.pc.isRegistering = false →
      thread'.pc.isRegistering = true → thread'.itemLockType = type → Progress thread thread' 0
  | reports : thread'.pipe = thread.pipe → thread'.itemLockType = thread.itemLockType →
      thread.pc.isRegistering = true → thread'.pc.isRegistering = false → Progress thread thread' 1

/-- What every step of worker `i` leaves as it is. -/
structure WorkerFrame (s : LockSystem ι κ n) (i : Fin n) (t : LockSystem ι κ n) : Prop where
  threads : t.threads = Function.update s.threads i (t.threads i)
  maintenance : t.maintenance = s.maintenance
  paused : t.paused = s.paused
  hashpower : t.assoc.hashpower = s.assoc.hashpower
  expanding : t.assoc.expanding = s.assoc.expanding

theorem workerFrame_setThread (s : LockSystem ι κ n) (i : Fin n) (thread : LibeventThread κ) :
    WorkerFrame s i (s.setThread i thread) where
  threads := by simp only [LockSystem.setThread, Function.update_self]
  maintenance := rfl
  paused := rfl
  hashpower := rfl
  expanding := rfl

theorem workerFrame_assoc {assoc : Assoc ι} (hp : assoc.hashpower = s.assoc.hashpower)
    (he : assoc.expanding = s.assoc.expanding) : WorkerFrame s i { s with assoc := assoc } where
  threads := (Function.update_eq_self i s.threads).symm
  maintenance := rfl
  paused := rfl
  hashpower := hp
  expanding := he

theorem WorkerFrame.locks {u : LockSystem ι κ n} (h : WorkerFrame u i t) (hs : u.threads = s.threads)
    (hm : u.maintenance = s.maintenance) (hp : u.paused = s.paused) (ha : u.assoc = s.assoc) : WorkerFrame s i t where
  threads := hs ▸ h.threads
  maintenance := h.maintenance.trans hm
  paused := h.paused.trans hp
  hashpower := h.hashpower.trans (by rw [ha])
  expanding := h.expanding.trans (by rw [ha])

theorem LockSystem.giveBack_frame (s : LockSystem ι κ n) (holdLock : Option Nat) : (s.giveBack holdLock).threads = s.threads ∧
    (s.giveBack holdLock).maintenance = s.maintenance ∧ (s.giveBack holdLock).paused = s.paused ∧
    (s.giveBack holdLock).assoc = s.assoc ∧ (s.giveBack holdLock).initCount = s.initCount := by
  cases holdLock <;> exact ⟨rfl, rfl, rfl, rfl, rfl⟩

theorem progress_command {w : Work κ} {pc : WorkerPc κ} (hpc : thread.pc = .command w ∨ thread.pc = .eventLoop)
    (hpc' : pc.isRegistering = false) : Progress thread { thread with pc := pc } 0 := by
  refine .goes rfl rfl ?_ fun b hb => .inl hb
  rcases hpc with hpc | hpc <;> rw [hpc] <;> exact hpc'

theorem progress_readPipe {b : PipeByte} {rest : List PipeByte} (hpc : thread.pc = .eventLoop)
    (hpipe : thread.pipe = b :: rest) : Progress thread (threadLibeventProcess { thread with pipe := rest } b) 0 := by
  cases b with
  | conn =>
    refine .goes ?_ rfl rfl fun b hb => .inl (hpipe ▸ List.mem_cons_of_mem _ hb)
    rw [LibeventThread.told, LibeventThread.told, hpipe]
    rfl
  | lockType granular =>
    cases granular with
    | true => exact @Progress.reads _ _ _ .granular hpipe (by rw [hpc]; rfl) rfl rfl
    | false => exact @Progress.reads _ _ _ .global hpipe (by rw [hpc]; rfl) rfl rfl

theorem progress_same : Progress thread thread 0 := .goes rfl rfl rfl fun _ hb => .inl hb

variable [DecidableEq κ]

theorem LibeventStep.frame (hs : LibeventStep hash keyOf s i e t) : WorkerFrame s i t := by
  cases hs with
  | readPipe | startCommand | endCommand | lookSame | lookBusy => exact workerFrame_setThread ..
  | register => exact ⟨(workerFrame_setThread s i _).threads, rfl, rfl, rfl, rfl⟩
  | itemLock | itemUnlock | lockCache | unlockCache | lookLocked =>
    exact (workerFrame_setThread _ i _).locks rfl rfl rfl rfl
  | @lookEnd w =>
    obtain ⟨ht, hm, hp, ha, _⟩ := s.giveBack_frame w.holdLock
    exact (workerFrame_setThread _ i _).locks ht hm hp ha
  | link =>
    obtain ⟨hp, he, _⟩ := assocInsert_fields s.assoc _ _
    exact workerFrame_assoc hp he
  | unlink =>
    obtain ⟨hp, he, _⟩ := assocDelete_fields keyOf s.assoc _ _
    exact workerFrame_assoc hp he

omit [DecidableEq κ] in
theorem LockSystem.threads_setPc {u : LockSystem ι κ n} {pc : WorkerPc κ} (hu : u.threads = s.threads) :
    (u.setPc i pc).threads i = { s.threads i with pc := pc } := by
  simp only [LockSystem.setPc, LockSystem.setThread, Function.update_self, hu]

theorem LibeventStep.progress (hs : LibeventStep hash keyOf s i e t) : ∃ k, Progress (s.threads i) (t.threads i) k ∧
    t.initCount = s.initCount + k ∧ (k = 1 → s.owner .init = none) := by
  have hcommand : ∀ {u : LockSystem ι κ n} {w : Work κ} {pc : WorkerPc κ}, u.threads = s.threads →
      ((s.threads i).pc = .command w ∨ (s.threads i).pc = .eventLoop) → pc.isRegistering = false →
      Progress (s.threads i) ((u.setPc i pc).threads i) 0 := by
    intro u w pc hu hpc hpc'
    rw [LockSystem.threads_setPc hu]
    exact progress_command hpc hpc'
  cases hs with
  | readPipe hpc hpipe =>
    refine ⟨0, ?_, rfl, by simp⟩
    simp only [LockSystem.setThread, Function.update_self]
    exact progress_readPipe hpc hpipe
  | register hpc hfree =>
    refine ⟨1, ?_, rfl, fun _ => hfree⟩
    rw [show ({ s.setPc i .eventLoop with initCount := s.initCount + 1 } : LockSystem ι κ n).threads i =
      { s.threads i with pc := .eventLoop } from LockSystem.threads_setPc rfl]
    exact .reports rfl rfl (by rw [hpc]; rfl) rfl
  | startCommand hpc => exact ⟨0, hcommand (w := .start) rfl (.inr hpc) rfl, rfl, by simp⟩
  | endCommand hpc | itemLock hpc | itemUnlock hpc | lockCache hpc | unlockCache hpc | lookSame hpc | lookLocked hpc
  | lookBusy hpc => exact ⟨0, hcommand rfl (.inl hpc) rfl, rfl, by simp⟩
  | @lookEnd w hpc =>
    obtain ⟨ht, _, _, _, hc⟩ := s.giveBack_frame w.holdLock
    exact ⟨0, hcommand ht (.inl hpc) rfl, hc, by simp⟩
  | link | unlink => exact ⟨0, progress_same, rfl, by simp⟩

end

/-! ## A change goes on -/

section

variable {s t : LockSystem ι κ n} {i : Fin n} {type : ItemLockType} {thread thread' : LibeventThread κ} {k : Nat}

theorem told_cons {type : ItemLockType} {rest : List PipeByte} (h : thread.pipe = type.byte :: rest) :
    thread.told = type.byte :: rest.filter PipeByte.isLockType := by
  rw [LibeventThread.told, h]
  rfl

theorem byte_injective {type type' : ItemLockType} (h : type.byte = type'.byte) : type = type' := by
  cases type <;> cases type' <;> first | rfl | cases h

/-- A worker that is told nothing does not change its lock. -/
theorem Progress.quiet (h : Progress thread thread' k) (hq : thread.Quiet) :
    thread'.Quiet ∧ thread'.itemLockType = thread.itemLockType ∧ k = 0 := by
  cases h with
  | goes ht htype hpc => exact ⟨⟨ht.trans hq.1, hpc.trans hq.2⟩, htype, rfl⟩
  | reads hpipe =>
    have htold := told_cons hpipe
    rw [hq.1] at htold
    cases htold
  | reports _ _ hpc =>
    rw [hq.2] at hpc
    cases hpc

theorem Progress.reported (h : Progress thread thread' k) (hr : thread.Reported type) : thread'.Reported type :=
  let ⟨hq, htype, _⟩ := h.quiet hr.1
  ⟨hq, htype.trans hr.2⟩

theorem mem_reported {s : LockSystem ι κ n} : i ∈ s.reported type ↔ (s.threads i).Reported type := by
  simp only [LockSystem.reported, Finset.mem_filter, Finset.mem_univ, true_and]

theorem forall_update {P : LibeventThread κ → Prop} (ht : t.threads = Function.update s.threads i (t.threads i))
    (hi : P (t.threads i)) (ho : ∀ j, j ≠ i → P (s.threads j)) (j : Fin n) : P (t.threads j) := by
  by_cases hj : j = i
  · rw [hj]
    exact hi
  · rw [ht, Function.update_of_ne hj]
    exact ho j hj

theorem LockSystem.Switching.transfer (h : s.Switching type) (ht : t.threads = s.threads) (hc : t.initCount = s.initCount) :
    t.Switching type where
  workers := by
    rw [ht]
    exact h.workers
  count := by
    rw [hc, LockSystem.reported, ht]
    exact h.count

theorem LockSystem.SwitchOk.transfer (h : s.SwitchOk) (ht : t.threads = s.threads) (hm : t.maintenance = s.maintenance)
    (he : t.assoc.expanding = s.assoc.expanding) (hc : t.initCount = s.initCount) : t.SwitchOk := by
  have hset : ∀ {type : ItemLockType}, s.Settled type → t.Settled type := by
    intro type hset i
    rw [ht]
    exact hset i
  unfold LockSystem.SwitchOk at h ⊢
  rw [hm, he]
  cases hpc : s.maintenance with
  | lockGlobal | lockCache | bulk | unlockGlobal | testExpanding | unlockExpand =>
    rw [hpc] at h
    obtain ⟨type, hs, hexp⟩ := h
    exact ⟨type, hset hs, hexp⟩
  | resume | lockIdle | startWait | idle | awake | pause | lockExpand | expand =>
    rw [hpc] at h
    exact ⟨h.1, hset h.2⟩
  | switch type at' =>
    rw [hpc] at h
    cases at' with
    | lockInit =>
      obtain ⟨hexp, old, hs⟩ := h
      exact ⟨hexp, old, hset hs⟩
    | await | blocked => exact ⟨h.1, h.2.transfer ht hc⟩
    | write k =>
      obtain ⟨hexp, hsw, hzero, hq⟩ := h
      exact ⟨hexp, hsw.transfer ht hc, hc.trans hzero, fun i hi => by rw [ht]; exact hq i hi⟩

theorem LockSystem.Settled.progress (h : s.Settled type) (ht : t.threads = Function.update s.threads i (t.threads i))
    (hp : Progress (s.threads i) (t.threads i) k) : t.Settled type :=
  forall_update (P := fun thread => thread.Reported type) ht (hp.reported (h i)) fun j _ => h j

theorem LockSystem.Switching.progress (h : s.Switching type) (ht : t.threads = Function.update s.threads i (t.threads i))
    (hp : Progress (s.threads i) (t.threads i) k) (hc : t.initCount = s.initCount + k) : t.Switching type := by
  have hother : ∀ j, j ≠ i → t.threads j = s.threads j := fun j hj => by rw [ht, Function.update_of_ne hj]
  have hsub : s.reported type ⊆ t.reported type := by
    intro j hj
    rw [mem_reported] at hj ⊢
    by_cases hji : j = i
    · subst hji
      exact hp.reported hj
    · rwa [hother j hji]
  have hcount : s.initCount ≤ (t.reported type).card := h.count.trans (Finset.card_le_card hsub)
  have hworkers : (t.threads i).OnTheWay type → ∀ j, (t.threads j).OnTheWay type := fun hi =>
    forall_update (P := fun thread => thread.OnTheWay type) ht hi fun j _ => h.workers j
  cases hp with
  | goes htold htype hpc =>
    refine ⟨hworkers ⟨?_, ?_⟩, hc ▸ hcount⟩
    · rw [htold, hpc]
      exact (h.workers i).told
    · rw [hpc, htype]
      exact (h.workers i).registering
  | reads hpipe hpc hpc' htype =>
    have htold := told_cons hpipe
    rcases (h.workers i).told with hnil | ⟨hone, _⟩
    · rw [hnil] at htold
      cases htold
    · rw [hone, List.cons.injEq] at htold
      obtain ⟨hb, hrest⟩ := htold
      exact ⟨hworkers ⟨.inl hrest.symm, fun _ => htype.trans (byte_injective hb).symm⟩, hc ▸ hcount⟩
  | reports hpipe htype hpc hpc' =>
    have hnil : (t.threads i).told = [] := by
      rw [LibeventThread.told, hpipe]
      rcases (h.workers i).told with hnil | ⟨_, hno⟩
      · exact hnil
      · rw [hpc] at hno
        cases hno
    refine ⟨hworkers ⟨.inl hnil, fun hr => ?_⟩, ?_⟩
    · rw [hpc'] at hr
      cases hr
    · have hi : i ∉ s.reported type := by
        rw [mem_reported]
        intro hr
        rw [hr.1.2] at hpc
        cases hpc
      have hins : insert i (s.reported type) ⊆ t.reported type :=
        Finset.insert_subset (mem_reported.mpr ⟨⟨hnil, hpc'⟩, htype.trans ((h.workers i).registering hpc)⟩) hsub
      calc t.initCount = s.initCount + 1 := hc
        _ ≤ (s.reported type).card + 1 := Nat.add_le_add_right h.count 1
        _ = (insert i (s.reported type)).card := (Finset.card_insert_of_notMem hi).symm
        _ ≤ (t.reported type).card := Finset.card_le_card hins

/-- As many reports as workers: every worker has changed. -/
theorem LockSystem.Switching.settled (h : s.Switching type) (hc : n ≤ s.initCount) : s.Settled type := by
  have hcard : (s.reported type).card = Fintype.card (Fin n) := by
    refine le_antisymm (Finset.card_le_univ _) ?_
    rw [Fintype.card_fin]
    exact hc.trans h.count
  intro i
  exact mem_reported.mp (Finset.eq_univ_iff_forall.mp ((Finset.card_eq_iff_eq_univ _).mp hcard) i)

theorem LockSystem.Settled.switching {old : ItemLockType} (h : s.Settled old) (ht : t.threads = s.threads) (hc : t.initCount = 0) :
    t.Switching type where
  workers := by
    intro i
    rw [ht]
    refine ⟨.inl (h i).1.1, fun hr => ?_⟩
    rw [(h i).1.2] at hr
    cases hr
  count := by
    rw [hc]
    exact Nat.zero_le _

/-- The byte of a change is written to a worker that is told nothing yet. -/
theorem LockSystem.Switching.write (h : s.Switching type) (hq : (s.threads i).Quiet) (hc : s.initCount = 0) :
    (s.write i type.byte).Switching type := by
  have hthread : (s.write i type.byte).threads = Function.update s.threads i ((s.write i type.byte).threads i) := by
    simp only [LockSystem.write, LockSystem.setThread, Function.update_self]
  have hself : (s.write i type.byte).threads i = { s.threads i with pipe := (s.threads i).pipe ++ [type.byte] } := by
    simp only [LockSystem.write, LockSystem.setThread, Function.update_self]
  refine ⟨forall_update (P := fun thread => thread.OnTheWay type) hthread ⟨.inr ?_, fun hr => ?_⟩ fun j _ => h.workers j, ?_⟩
  · rw [hself]
    refine ⟨?_, hq.2⟩
    have hnil : (s.threads i).pipe.filter PipeByte.isLockType = [] := hq.1
    rw [LibeventThread.told, List.filter_append, hnil]
    rfl
  · rw [hself] at hr
    exact absurd (hq.2.symm.trans hr) (by simp)
  · exact (Nat.le_of_eq hc).trans (Nat.zero_le _)

end

end RamCube
