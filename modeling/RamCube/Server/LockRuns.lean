import RamCube.Server.LockAgreement

/-! # Item locks over whole runs

Whatever the order of the steps: a bucket of the table moves only while no worker is in a
section, `item_unlock` gives back what `item_lock` locked, and two threads are at one bucket only
while the workers change from one kind of lock to the other. -/
namespace RamCube

variable {ι κ : Type} {n : Nat} {hash : κ → UInt32} {keyOf : ι → κ} {hashBulkMove : Int}

structure LockOk (hash : κ → UInt32) (s : LockSystem ι κ n) : Prop where
  owned : s.Owned
  sections : SectionsOk hash s
  switch : s.SwitchOk
  paused : s.PausedOk

theorem lockOk_start (hashpower n : Nat) : LockOk hash (LockSystem.start hashpower n : LockSystem ι κ n) where
  owned := by
    intro l u
    cases u <;> simp [LockSystem.start, LockSystem.held, WorkerPc.held, MaintenancePc.held, RebalancePc.held]
  sections := by intro i w hpc; cases hpc
  switch := ⟨.granular, fun _ => ⟨⟨rfl, rfl⟩, rfl⟩, by intro h; cases h⟩
  paused := ⟨fun _ _ => ⟨rfl, by simp [LockSystem.start]⟩, fun h => absurd h (by simp [LockSystem.start, MaintenancePc.isGlobal]),
    fun h => absurd h (by simp [LockSystem.start, assocInit])⟩

section

variable {s t : LockSystem ι κ n} {i : Fin n} {e : LockEvent ι κ n} {ok : Bool} {k : Nat}

/-! ## A worker's step -/

/-- What a worker does is a step on the way of a change, or none. -/
theorem LockSystem.SwitchOk.progress (h : s.SwitchOk) (ho : s.Owned) (hf : WorkerFrame s i t)
    (hp : Progress (s.threads i) (t.threads i) k) (hc : t.initCount = s.initCount + k)
    (hinit : k = 1 → s.owner .init = none) : t.SwitchOk := by
  have hone : k = 0 ∨ k = 1 := by
    cases hp with
    | goes | reads => exact .inl rfl
    | reports => exact .inr rfl
  unfold LockSystem.SwitchOk at h ⊢
  rw [hf.maintenance, hf.expanding]
  cases hm : s.maintenance with
  | lockGlobal | lockCache | bulk | unlockGlobal | testExpanding | unlockExpand =>
    rw [hm] at h
    obtain ⟨type, hset, he⟩ := h
    exact ⟨type, hset.progress hf.threads hp, he⟩
  | resume | lockIdle | startWait | idle | awake | pause =>
    rw [hm] at h
    exact ⟨h.1, h.2.progress hf.threads hp⟩
  | lockExpand | expand =>
    rw [hm] at h
    exact ⟨h.1, h.2.progress hf.threads hp⟩
  | switch type at' =>
    rw [hm] at h
    cases at' with
    | lockInit =>
      obtain ⟨he, old, hset⟩ := h
      exact ⟨he, old, hset.progress hf.threads hp⟩
    | await | blocked => exact ⟨h.1, h.2.progress hf.threads hp hc⟩
    | write m =>
      obtain ⟨he, hsw, hzero, hq⟩ := h
      have hk : k = 0 := by
        rcases hone with hk | hk
        · exact hk
        · refine absurd ?_ (ho.not_held (t := .maintenance) (hinit hk))
          simp [LockSystem.held, hm, MaintenancePc.held]
      refine ⟨he, hsw.progress hf.threads hp hc, by rw [hc, hzero, hk], fun j hj => ?_⟩
      by_cases hji : j = i
      · rw [hji]
        exact (hp.quiet (hji ▸ hq j hj)).1
      · rw [hf.threads, Function.update_of_ne hji]
        exact hq j hj

theorem LockSystem.PausedOk.progress (h : s.PausedOk) (hf : WorkerFrame s i t)
    (hp : Progress (s.threads i) (t.threads i) k) : t.PausedOk := by
  refine ⟨fun hpaused => ?_, fun hm => hf.paused.trans (h.global (hf.maintenance ▸ hm)),
    fun he => hf.paused.trans (h.expanding (hf.expanding.symm.trans he))⟩
  have hs := h.granular (hf.paused.symm.trans hpaused)
  refine forall_update (P := fun thread => thread.itemLockType = .granular ∧ .lockType false ∉ thread.pipe) hf.threads ?_
    fun j _ => hs j
  obtain ⟨htype, hnot⟩ := hs i
  cases hp with
  | goes _ htype' _ hpipe =>
    refine ⟨htype'.trans htype, fun hin => ?_⟩
    rcases hpipe _ hin with hin | hin
    · exact hnot hin
    · cases hin
  | @reads type hpipe _ _ htype' =>
    cases type with
    | granular => exact ⟨htype', fun hin => hnot (by rw [hpipe]; exact List.mem_cons_of_mem _ hin)⟩
    | global => exact absurd (by rw [hpipe]; exact List.mem_cons_self) hnot
  | reports hpipe htype' => exact ⟨htype'.trans htype, hpipe ▸ hnot⟩

variable [DecidableEq κ]

omit [DecidableEq κ] in
/-- A worker that keeps its section and its handle. -/
theorem WorkOk.command {type : ItemLockType} {w w' : Work κ} (h : WorkOk hash s type w) (hs : w'.sect = w.sect)
    (hlook : w'.cache = false → w'.look = .none) (hhandle : ∀ k, w'.look = .locked k → w'.holdLock = some k)
    (hapart : w'.cache = true → ∀ k, w'.holdLock = some k → w.cache = true ∧ w.holdLock = some k) : WorkOk hash s type w' where
  mutex := hs ▸ h.mutex
  look := hlook
  handle := hhandle
  apart := by
    intro hc σ hσ k hk
    obtain ⟨hc', hk'⟩ := hapart hc k hk
    exact h.apart hc' σ (hs ▸ hσ) k hk'

theorem LibeventStep.sections (hs : LibeventStep hash keyOf s i e t) (h : SectionsOk hash s) (ho : s.Owned) : SectionsOk hash t := by
  have hf := hs.frame
  have hpcs : ∀ {u : LockSystem ι κ n} {w : Work κ}, u.threads = s.threads → u.assoc = s.assoc →
      WorkOk hash s (s.threads i).itemLockType w → SectionsOk hash (u.setPc i (.command w)) := by
    intro u w hu ha hw
    refine h.setThread (i := i) { s.threads i with pc := .command w } (by simp only [LockSystem.setPc, LockSystem.setThread, ha])
      (by simp only [LockSystem.setPc, LockSystem.setThread, hu]) fun w' hw' => ?_
    cases hw'
    exact hw.transfer fun _ => by simp only [LockSystem.setPc, LockSystem.setThread, ha]
  cases hs with
  | @readPipe b rest hpc =>
    refine h.setThread (i := i) _ rfl rfl fun w hw => ?_
    cases b with
    | conn => simp [threadLibeventProcess, hpc] at hw
    | lockType granular => cases granular <;> cases hw
  | register =>
    refine h.setThread (i := i) { s.threads i with pc := .eventLoop } rfl rfl fun w hw => ?_
    cases hw
  | endCommand =>
    refine h.setThread (i := i) { s.threads i with pc := .eventLoop } rfl rfl fun w hw => ?_
    cases hw
  | startCommand => exact hpcs rfl rfl workOk_start
  | @itemLock w key hpc hsect hcache =>
    have hw := h i w hpc
    refine hpcs rfl rfl ⟨fun σ hσ => ?_, hw.look, hw.handle, fun hc => ?_⟩
    · cases hσ
      rfl
    · exact absurd (hcache.symm.trans hc) (by simp)
  | @itemUnlock w σ hpc hsect hcache =>
    have hw := h i w hpc
    refine hpcs rfl rfl ⟨fun σ hσ => ?_, hw.look, hw.handle, fun _ σ hσ => ?_⟩
    · cases hσ
    · cases hσ
  | @lockCache w hpc hcache =>
    have hw := h i w hpc
    refine hpcs rfl rfl (hw.command rfl (fun hc => ?_) (fun k hk => ?_) fun _ k hk => ?_)
    · cases hc
    · rw [show w.look = _ from hw.look hcache] at hk
      cases hk
    · cases hk
  | @unlockCache w hpc hcache hlook =>
    have hw := h i w hpc
    refine hpcs rfl rfl (hw.command rfl (fun _ => hlook) hw.handle fun hc => ?_)
    cases hc
  | @lookSame w hv hpc hcache =>
    have hw := h i w hpc
    refine hpcs rfl rfl (hw.command rfl (fun hc => ?_) (fun k hk => ?_) fun hc k hk => ⟨hc, hk⟩)
    · exact absurd (hcache.symm.trans hc) (by simp)
    · cases hk
  | @lookLocked w hv hpc hcache hlook hne hfree =>
    have hw := h i w hpc
    refine hpcs rfl rfl ⟨hw.mutex, fun hc => ?_, fun k hk => ?_, fun _ σ hσ k hk he => ?_⟩
    · exact absurd (hcache.symm.trans hc) (by simp)
    · cases hk
      rfl
    · cases hk
      refine ho.not_held (t := .worker i) hfree ?_
      simp only [LockSystem.held, hpc, WorkerPc.held]
      exact Work.mem_held.mpr (.inr (.inr ⟨σ, hσ, he⟩))
  | @lookBusy w hv hpc hcache hlook =>
    have hw := h i w hpc
    refine hpcs rfl rfl (hw.command rfl hw.look (fun k hk => ?_) fun _ k hk => ?_)
    · rw [show w.look = _ from hlook] at hk
      cases hk
    · cases hk
  | @lookEnd w hpc =>
    have hw := h i w hpc
    obtain ⟨ht, _, _, ha, _⟩ := s.giveBack_frame w.holdLock
    refine hpcs ht ha (hw.command rfl (fun _ => rfl) (fun k hk => ?_) fun hc k hk => ⟨hc, hk⟩)
    cases hk
  | link => exact h.transfer rfl fun _ => hf.hashpower
  | unlink => exact h.transfer rfl fun _ => hf.hashpower

/-! ## A step of the maintenance thread -/

omit [DecidableEq κ] in
theorem MaintenanceStep.switchOk (hs : MaintenanceStep hash keyOf hashBulkMove s ok t) (h : s.SwitchOk) : t.SwitchOk := by
  unfold LockSystem.SwitchOk at h
  cases hs with
  | lockGlobal hm | lockCache hm | moved hm | unlockGlobal hm | more hm | lockIdle hm | idle hm | awake hm | lockExpand hm =>
    rw [hm] at h
    exact h
  | @move ii hm =>
    rw [hm] at h
    obtain ⟨type, hset, he⟩ := h
    refine ⟨type, hset, fun hexp => he ?_⟩
    have hfields := (migrateBucket_fields hash keyOf s.assoc).2.2.2.1
    rw [show (migrateBucket hash keyOf s.assoc).expanding = true from hexp] at hfields
    split at hfields
    · cases hfields
    · exact hfields.symm
  | done hm hexp =>
    rw [hm] at h
    obtain ⟨type, hset, _⟩ := h
    exact ⟨hexp, type, hset⟩
  | @lockInit type hm =>
    rw [hm] at h
    obtain ⟨he, old, hset⟩ := h
    exact ⟨he, hset.switching rfl rfl, rfl, fun i _ => (hset i).1⟩
  | @write type k hk hm =>
    rw [hm] at h
    obtain ⟨he, hsw, hzero, hq⟩ := h
    cases ok with
    | false => exact ⟨he, hsw.transfer rfl rfl, hzero, fun i hi => hq i (by omega)⟩
    | true =>
      refine ⟨he, (hsw.write (hq ⟨k, hk⟩ (Nat.le_refl k)) hzero).transfer rfl rfl, hzero, fun i hi => ?_⟩
      have hne : i ≠ ⟨k, hk⟩ := by
        rintro rfl
        exact Nat.not_succ_le_self k hi
      have hthread : (s.write ⟨k, hk⟩ type.byte).threads i = s.threads i := Function.update_of_ne hne ..
      exact hthread ▸ hq i (by omega)
  | written hm =>
    rw [hm] at h
    exact ⟨h.1, h.2.1.transfer rfl rfl⟩
  | wait hm | wake hm =>
    rw [hm] at h
    exact ⟨h.1, h.2.transfer rfl rfl⟩
  | @switched type hm hcount =>
    rw [hm] at h
    have hset := h.2.settled hcount
    cases type with
    | granular => exact ⟨h.1, hset⟩
    | global => exact ⟨h.1, hset⟩
  | resume hm | startWait hm =>
    rw [hm] at h
    exact h
  | pause hm =>
    rw [hm] at h
    exact ⟨h.1, .granular, h.2⟩
  | expand hm =>
    rw [hm] at h
    exact ⟨.global, h.2, fun _ => rfl⟩
  | unlockExpand hm =>
    rw [hm] at h
    exact h

omit [DecidableEq κ] in
theorem MaintenanceStep.pausedOk (hs : MaintenanceStep hash keyOf hashBulkMove s ok t) (h : s.PausedOk) (hsw : s.SwitchOk) :
    t.PausedOk := by
  have hsame : ∀ {u : LockSystem ι κ n}, u.threads = s.threads → u.paused = s.paused →
      (u.maintenance.isGlobal = true → s.maintenance.isGlobal = true) →
      (u.assoc.expanding = true → s.assoc.expanding = true ∨ s.maintenance.isGlobal = true) → u.PausedOk := by
    intro u hu hp hm he
    refine ⟨fun hpaused => ?_, fun hg => hp.trans (h.global (hm hg)), fun hexp => hp.trans ?_⟩
    · rw [hu]
      exact h.granular (hp.symm.trans hpaused)
    · exact (he hexp).elim h.expanding h.global
  have hlocal : ∀ {pc : MaintenancePc}, pc.isGlobal = false → pc.isGlobal = true → s.maintenance.isGlobal = true := by
    intro pc hf ht
    rw [hf] at ht
    cases ht
  have hstays : ∀ {type : ItemLockType} {at' next : SwitchPc}, s.maintenance = .switch type at' →
      (MaintenancePc.switch type next).isGlobal = true → s.maintenance.isGlobal = true := by
    intro type at' next hm hg
    rw [hm]
    cases type with
    | granular => cases hg
    | global => rfl
  cases hs with
  | lockGlobal | lockCache | moved | unlockGlobal | more | done | lockIdle | startWait | idle | awake | unlockExpand =>
    exact hsame rfl rfl (hlocal rfl) .inl
  | lockExpand hm => exact hsame rfl rfl (fun _ => by rw [hm]; rfl) .inl
  | expand hm => exact hsame rfl rfl (hlocal rfl) fun _ => .inr (by rw [hm]; rfl)
  | move hm _ he => exact hsame rfl rfl (hlocal rfl) fun _ => .inl he
  | lockInit hm | written hm | wait hm | wake hm => exact hsame rfl rfl (hstays hm) .inl
  | @switched type hm =>
    cases type with
    | granular => exact hsame rfl rfl (hlocal rfl) .inl
    | global => exact hsame rfl rfl (fun _ => by rw [hm]; rfl) .inl
  | @write type k hk hm =>
    cases ok with
    | false => exact hsame rfl rfl (hstays hm) .inl
    | true =>
      refine ⟨fun hpaused j => ?_, fun hg => h.global (hstays hm hg), h.expanding⟩
      have hs := h.granular hpaused
      have hthread : ((s.write ⟨k, hk⟩ type.byte).maintain (.switch type (.write (k + 1)))).threads =
          Function.update s.threads ⟨k, hk⟩ { s.threads ⟨k, hk⟩ with pipe := (s.threads ⟨k, hk⟩).pipe ++ [type.byte] } := rfl
      rw [if_pos rfl, hthread]
      by_cases hj : j = ⟨k, hk⟩
      · subst hj
        rw [Function.update_self]
        refine ⟨(hs _).1, fun hin => ?_⟩
        rcases List.mem_append.mp hin with hin | hin
        · exact (hs _).2 hin
        · cases type with
          | granular => simp [ItemLockType.byte] at hin
          | global =>
            have hp := h.global (by rw [hm]; rfl)
            rw [show s.paused = false from hpaused] at hp
            cases hp
      · rw [Function.update_of_ne hj]
        exact hs j
  | resume hm =>
    unfold LockSystem.SwitchOk at hsw
    rw [hm] at hsw
    refine ⟨fun _ i => ?_, fun hg => (by cases hg), fun he => ?_⟩
    · obtain ⟨⟨htold, _⟩, htype⟩ := hsw.2 i
      refine ⟨htype, fun hin => ?_⟩
      have hmem : PipeByte.lockType false ∈ (s.threads i).told := List.mem_filter.mpr ⟨hin, rfl⟩
      rw [htold] at hmem
      cases hmem
    · exact absurd (hsw.1.symm.trans he) (by simp)
  | pause hm => exact ⟨fun hp => (by cases hp), fun _ => rfl, fun _ => rfl⟩

omit [DecidableEq κ] in
theorem MaintenanceStep.sections (hs : MaintenanceStep hash keyOf hashBulkMove s ok t) (h : SectionsOk hash s) (hsw : s.SwitchOk) :
    SectionsOk hash t := by
  cases hs with
  | lockGlobal | lockCache | moved | unlockGlobal | more | done | lockInit | written | wait | wake | switched | resume
  | lockIdle | startWait | idle | awake | pause | lockExpand | unlockExpand => exact h.transfer rfl fun _ => rfl
  | move => exact h.transfer rfl fun _ => (migrateBucket_fields hash keyOf s.assoc).1
  | @write type k hk hm =>
    cases ok with
    | false => exact h.transfer rfl fun _ => rfl
    | true =>
      refine h.setThread (i := ⟨k, hk⟩) _ rfl rfl fun w hw => ?_
      exact (h ⟨k, hk⟩ w hw).transfer fun _ => rfl
  | expand hm =>
    unfold LockSystem.SwitchOk at hsw
    rw [hm] at hsw
    refine h.transfer rfl fun hg => ?_
    obtain ⟨i, hi⟩ := hg
    rw [(hsw.2 i).2] at hi
    cases hi

/-! ## Any step -/

omit [DecidableEq κ] in
theorem notify_frame (s : LockSystem ι κ n) (i : Fin n) : WorkerFrame s i (s.write i .conn) ∧
    Progress (s.threads i) ((s.write i .conn).threads i) 0 := by
  refine ⟨workerFrame_setThread s i _, ?_⟩
  rw [show (s.write i .conn).threads i = { s.threads i with pipe := (s.threads i).pipe ++ [.conn] } from Function.update_self ..]
  refine .goes ?_ rfl rfl fun b hb => ?_
  · simp [LibeventThread.told, PipeByte.isLockType]
  · rcases List.mem_append.mp hb with hb | hb
    · exact .inl hb
    · exact .inr (List.mem_singleton.mp hb)

theorem RebalanceStep.frame (hs : RebalanceStep hash keyOf s e t) : t.threads = s.threads ∧ t.maintenance = s.maintenance ∧
    t.paused = s.paused ∧ t.assoc.hashpower = s.assoc.hashpower ∧ t.assoc.expanding = s.assoc.expanding ∧
    t.initCount = s.initCount := by
  cases hs with
  | wake | lockCache | look | lookBusy | lookEnd | unlockCache | wait => exact ⟨rfl, rfl, rfl, rfl, rfl, rfl⟩
  | unlink =>
    obtain ⟨hp, he, _⟩ := assocDelete_fields keyOf s.assoc _ _
    exact ⟨rfl, rfl, rfl, hp, he, rfl⟩

theorem LockStep.keeps (hs : LockStep hash keyOf hashBulkMove s e t) (h : LockOk hash s) (hown : GivesBackOwn s e) :
    LockOk hash t := by
  have howned := hs.owned h.owned h.sections hown
  cases hs with
  | notify i =>
    obtain ⟨hf, hp⟩ := notify_frame s i
    refine ⟨howned, h.sections.setThread (i := i) _ rfl rfl fun w hw => ?_, h.switch.progress h.owned hf hp rfl (by simp),
      h.paused.progress hf hp⟩
    exact (h.sections i w hw).transfer fun _ => rfl
  | worker hw =>
    obtain ⟨k, hp, hc, hinit⟩ := hw.progress
    exact ⟨howned, hw.sections h.sections h.owned, h.switch.progress h.owned hw.frame hp hc hinit, h.paused.progress hw.frame hp⟩
  | maintenance hm => exact ⟨howned, hm.sections h.sections h.switch, hm.switchOk h.switch, hm.pausedOk h.paused h.switch⟩
  | rebalance hr =>
    obtain ⟨ht, hm, hp, hpow, hexp, hc⟩ := hr.frame
    refine ⟨howned, h.sections.transfer ht fun _ => hpow, h.switch.transfer ht hm hexp hc, ⟨?_, ?_, ?_⟩⟩
    · rw [ht, hp]
      exact h.paused.granular
    · rw [hm, hp]
      exact h.paused.global
    · rw [hexp, hp]
      exact h.paused.expanding

end

/-! ## What holds in every run -/

/-- The same bucket of the same table, which a lookup of either hash value walks. -/
def SameBucket (t : Assoc ι) (hv hv' : UInt32) : Prop :=
  inOld t hv = inOld t hv' ∧ if inOld t hv then oldbucket t hv = oldbucket t hv' else bucket t hv = bucket t hv'

section

variable {s : LockSystem ι κ n} {i j : Fin n} {w : Work κ} {σ τ : Section κ}

theorem LockOk.owner_mutex (h : LockOk hash s) (hpc : (s.threads i).pc = .command w) (hσ : w.sect = some σ) :
    s.owner σ.mutex = some (.worker i) := by
  refine (h.owned _ _).mpr ?_
  simp only [LockSystem.held, hpc, WorkerPc.held]
  exact Work.mem_held.mpr (.inr (.inr ⟨σ, hσ, rfl⟩))

/-- Every worker's kind of lock, where a bucket is left to move. -/
theorem LockSystem.SwitchOk.expanding (h : s.SwitchOk) (he : s.assoc.expanding = true) : s.Settled .global := by
  unfold LockSystem.SwitchOk at h
  cases hm : s.maintenance with
  | lockGlobal | lockCache | bulk | unlockGlobal | testExpanding | unlockExpand =>
    rw [hm] at h
    obtain ⟨type, hset, hexp⟩ := h
    exact hexp he ▸ hset
  | resume | lockIdle | startWait | idle | awake | pause | lockExpand | expand =>
    rw [hm] at h
    exact absurd (h.1.symm.trans he) (by simp)
  | switch type at' =>
    rw [hm] at h
    cases at' <;> exact absurd (h.1.symm.trans he) (by simp)

/-- Workers with different kinds of locks are met only inside `switch_item_lock_type`. -/
theorem LockSystem.SwitchOk.differ (h : s.SwitchOk) (hne : (s.threads i).itemLockType ≠ (s.threads j).itemLockType) :
    ∃ type at', s.maintenance = .switch type at' := by
  have hset : ∀ {type : ItemLockType}, ¬s.Settled type := fun hs => hne ((hs i).2.trans (hs j).2.symm)
  unfold LockSystem.SwitchOk at h
  cases hm : s.maintenance with
  | lockGlobal | lockCache | bulk | unlockGlobal | testExpanding | unlockExpand =>
    rw [hm] at h
    obtain ⟨type, hs, _⟩ := h
    exact absurd hs hset
  | resume | lockIdle | startWait | idle | awake | pause | lockExpand | expand =>
    rw [hm] at h
    exact absurd h.2 hset
  | switch type at' => exact ⟨type, at', rfl⟩

theorem LockOk.other_mutex (h : LockOk hash s) (hne : i ≠ j) {w' : Work κ} (hi : (s.threads i).pc = .command w)
    (hj : (s.threads j).pc = .command w') (hσ : w.sect = some σ) (hτ : w'.sect = some τ) : σ.mutex ≠ τ.mutex := by
  intro he
  have hown := (h.owner_mutex hi hσ).symm.trans (he ▸ h.owner_mutex hj hτ)
  cases hown
  exact hne rfl

theorem LockOk.same_bucket (h : LockOk hash s) (hne : i ≠ j) {w' : Work κ} (hi : (s.threads i).pc = .command w)
    (hj : (s.threads j).pc = .command w') (hσ : w.sect = some σ) (hτ : w'.sect = some τ)
    (hb : SameBucket s.assoc (hash σ.key) (hash τ.key)) : (s.threads i).itemLockType ≠ (s.threads j).itemLockType := by
  intro htype
  have hmutex := h.other_mutex hne hi hj hσ hτ
  rw [(h.sections i w hi).mutex σ hσ, (h.sections j w' hj).mutex τ hτ, ← htype] at hmutex
  cases hg : (s.threads i).itemLockType with
  | global =>
    rw [hg] at hmutex
    exact hmutex rfl
  | granular =>
    have hexp : s.assoc.expanding = false := by
      cases he : s.assoc.expanding with
      | false => rfl
      | true =>
        have hglobal := (h.switch.expanding he i).2
        rw [hg] at hglobal
        cases hglobal
    obtain ⟨_, hb⟩ := hb
    rw [if_neg (by simp [inOld, hexp])] at hb
    rw [hg] at hmutex
    exact hmutex (by simp only [LockSystem.itemMutex, LockSystem.itemLockOf, hb])

theorem LockOk.running (h : LockOk hash s) {cache : Bool} {look : Option Nat} (hr : s.rebalance = .running cache look) :
    s.paused = false := by
  cases hp : s.paused with
  | false => rfl
  | true =>
    have hm : Mutex.slabsRebalance ∈ s.held .maintenance := by simp [LockSystem.held, hp]
    have hrun : Mutex.slabsRebalance ∈ s.held .rebalance := by simp [LockSystem.held, hr, RebalancePc.held]
    cases h.owned.exclusive hm hrun

variable [DecidableEq κ] {hashpower : Nat} {events : List (LockEvent ι κ n)}

theorem lock_run_ok (hr : Run (Guarded GivesBackOwn (LockStep hash keyOf hashBulkMove)) (LockSystem.start hashpower n) events s) :
    LockOk hash s :=
  hr.invariant_of_guard (fun _ _ _ h hown hs => hs.keeps h hown) (lockOk_start hashpower n)

omit [DecidableEq κ] in
theorem gives_back_nothing {e : LockEvent ι κ n} (h : s.givenBack e = []) : GivesBackOwn s e := by
  intro g hg
  rw [h] at hg
  cases hg

/-! Runs step by step. -/

theorem run_maintain {t u : LockSystem ι κ n} (hown : s.givenBack (.maintain true) = [])
    (hs : MaintenanceStep hash keyOf hashBulkMove s true t)
    (hr : Run (Guarded GivesBackOwn (LockStep hash keyOf hashBulkMove)) t events u) :
    Run (Guarded GivesBackOwn (LockStep hash keyOf hashBulkMove)) s (.maintain true :: events) u :=
  .cons ⟨gives_back_nothing hown, .maintenance hs⟩ hr

theorem run_worker {t u : LockSystem ι κ n} (e : LockEvent ι κ n) (hown : s.givenBack e = []) (hs : LibeventStep hash keyOf s i e t)
    (hr : Run (Guarded GivesBackOwn (LockStep hash keyOf hashBulkMove)) t events u) :
    Run (Guarded GivesBackOwn (LockStep hash keyOf hashBulkMove)) s (e :: events) u :=
  .cons ⟨gives_back_nothing hown, .worker hs⟩ hr

theorem run_resume {u : LockSystem ι κ n} (hm : s.maintenance = .resume) (hfree : s.owner .slabsRebalance = none)
    (hr : Run (Guarded GivesBackOwn (LockStep hash keyOf hashBulkMove))
      { (s.release .slabsRebalance).maintain .lockIdle with paused := false } events u) :
    Run (Guarded GivesBackOwn (LockStep hash keyOf hashBulkMove)) s (.maintain true :: events) u := by
  refine .cons ⟨fun g hg v hv => ?_, .maintenance (.resume hm)⟩ hr
  simp only [LockSystem.givenBack, hm, List.mem_singleton] at hg
  rw [hg, hfree] at hv
  cases hv

/-- While buckets are moved to the larger table, no worker is in a section or has the cache lock,
every worker uses the lock for all items, and the page mover rests. -/
theorem buckets_move_alone
    (hr : Run (Guarded GivesBackOwn (LockStep hash keyOf hashBulkMove)) (LockSystem.start hashpower n) events s) {ii : Nat}
    (hm : s.maintenance = .bulk ii) (he : s.assoc.expanding = true) :
    (∀ i, (s.threads i).itemLockType = .global ∧
      ∀ w, (s.threads i).pc = .command w → w.sect = none ∧ w.cache = false ∧ w.look = .none) ∧
    s.rebalance = .waiting := by
  have h := lock_run_ok hr
  have hglobal := h.switch.expanding he
  have hheld : ∀ m, m ∈ s.maintenance.held → s.owner m = some .maintenance := by
    intro m hmem
    refine (h.owned m .maintenance).mpr ?_
    rw [LockSystem.held, List.mem_append]
    exact .inl hmem
  refine ⟨fun i => ⟨(hglobal i).2, fun w hpc => ?_⟩, ?_⟩
  · have hw := h.sections i w hpc
    have hcache : w.cache = false := by
      cases hc : w.cache with
      | false => rfl
      | true =>
        have hown : s.owner .cache = some (.worker i) := by
          refine (h.owned _ _).mpr ?_
          simp only [LockSystem.held, hpc, WorkerPc.held]
          exact Work.mem_held.mpr (.inr (.inl ⟨hc, rfl⟩))
        rw [hheld .cache (by rw [hm]; simp [MaintenancePc.held])] at hown
        cases hown
    refine ⟨?_, hcache, hw.look hcache⟩
    cases hs : w.sect with
    | none => rfl
    | some σ =>
      have hown := h.owner_mutex hpc hs
      rw [hw.mutex σ hs, (hglobal i).2, LockSystem.itemMutex, hheld .itemGlobal (by rw [hm]; simp [MaintenancePc.held])] at hown
      cases hown
  · cases hreb : s.rebalance with
    | waiting => rfl
    | running cache look =>
      have hp := h.paused.expanding he
      rw [h.running hreb] at hp
      cases hp

/-- The first bucket of a table of two. -/
theorem buckets_move_alone_first : ∃ s : LockSystem UInt32 UInt32 1, s.maintenance = .bulk 0 ∧ s.assoc.expanding = true ∧
    (s.threads 0).itemLockType = .global ∧ s.rebalance = .waiting := by
  have hr : Run (Guarded GivesBackOwn (LockStep id id 1)) (.start 1 1 : LockSystem UInt32 UInt32 1) _ _ :=
    run_maintain rfl (.lockGlobal rfl rfl) <| run_maintain rfl (.lockCache rfl rfl) <|
    run_maintain rfl (.moved rfl fun h => by cases h.2) <| run_maintain rfl (.unlockGlobal rfl) <|
    run_maintain rfl (.done rfl rfl) <| run_maintain rfl (.lockInit rfl rfl) <|
    run_maintain rfl (.write (by decide) rfl) <| run_maintain rfl (.written rfl (by decide)) <|
    run_maintain rfl (.wait rfl (by decide)) <| run_worker (.readPipe 0) rfl (.readPipe rfl rfl) <|
    run_worker (.register 0) rfl (.register rfl rfl) <| run_maintain rfl (.wake rfl rfl) <|
    run_maintain rfl (.switched rfl (by decide)) <| run_resume rfl rfl <| run_maintain rfl (.lockIdle rfl rfl) <|
    run_maintain rfl (.startWait rfl) <| run_maintain rfl (.idle rfl rfl) <| run_maintain rfl (.awake rfl) <|
    run_maintain rfl (.pause rfl rfl) <| run_maintain rfl (.lockInit rfl rfl) <|
    run_maintain rfl (.write (by decide) rfl) <| run_maintain rfl (.written rfl (by decide)) <|
    run_maintain rfl (.wait rfl (by decide)) <| run_worker (.readPipe 0) rfl (.readPipe rfl rfl) <|
    run_worker (.register 0) rfl (.register rfl rfl) <| run_maintain rfl (.wake rfl rfl) <|
    run_maintain rfl (.switched rfl (by decide)) <| run_maintain rfl (.lockExpand rfl rfl) <|
    run_maintain rfl (.expand rfl) <| run_maintain rfl (.unlockExpand rfl) <|
    run_maintain rfl (.lockGlobal rfl rfl) <| run_maintain rfl (.lockCache rfl rfl) <| .nil _
  obtain ⟨hworkers, hwaiting⟩ := buckets_move_alone hr rfl rfl
  exact ⟨_, rfl, rfl, (hworkers 0).1, hwaiting⟩

/-- `item_unlock` gives back the mutex that `item_lock` locked for the section, which no other
thread has had since. -/
theorem item_unlock_matches
    (hr : Run (Guarded GivesBackOwn (LockStep hash keyOf hashBulkMove)) (LockSystem.start hashpower n) events s)
    (hpc : (s.threads i).pc = .command w) (hσ : w.sect = some σ) :
    s.itemMutex (s.threads i).itemLockType (hash σ.key) = σ.mutex ∧ s.owner σ.mutex = some (.worker i) ∧
      ∀ u, σ.mutex ∈ s.held u → u = .worker i := by
  have h := lock_run_ok hr
  have hown := h.owner_mutex hpc hσ
  refine ⟨((h.sections i w hpc).mutex σ hσ).symm, hown, fun u hu => ?_⟩
  exact Option.some.inj (((h.owned _ _).mpr hu).symm.trans hown)

/-- A worker with locks of single items. -/
theorem item_unlock_matches_first : ∃ s : LockSystem UInt32 UInt32 1, s.owner (.item 1) = some (.worker 0) := by
  have hr : Run (Guarded GivesBackOwn (LockStep id id 1)) (.start 1 1 : LockSystem UInt32 UInt32 1) _ _ :=
    run_worker (.startCommand 0) rfl (.startCommand rfl) <|
    run_worker (.itemLock 0 7) rfl (.itemLock rfl rfl rfl rfl) <| .nil _
  exact ⟨_, (item_unlock_matches (i := 0) hr rfl rfl).2.1⟩

/-- Two workers in sections of one bucket have different kinds of locks: it happens only while
`switch_item_lock_type` waits for the workers, and then no bucket is left to move. -/
theorem sections_apart
    (hr : Run (Guarded GivesBackOwn (LockStep hash keyOf hashBulkMove)) (LockSystem.start hashpower n) events s)
    (hne : i ≠ j) {w' : Work κ} (hi : (s.threads i).pc = .command w) (hj : (s.threads j).pc = .command w')
    (hσ : w.sect = some σ) (hτ : w'.sect = some τ) (hb : SameBucket s.assoc (hash σ.key) (hash τ.key)) :
    (s.threads i).itemLockType ≠ (s.threads j).itemLockType ∧ (∃ type at', s.maintenance = .switch type at') ∧
      s.assoc.expanding = false := by
  have h := lock_run_ok hr
  have hdiffer := h.same_bucket hne hi hj hσ hτ hb
  refine ⟨hdiffer, h.switch.differ hdiffer, ?_⟩
  cases he : s.assoc.expanding with
  | false => rfl
  | true =>
    have hglobal := h.switch.expanding he
    exact absurd ((hglobal i).2.trans (hglobal j).2.symm) hdiffer

/-- One worker has changed its lock and one has not, and both are in a section of one key. -/
theorem sections_apart_changing : ∃ s : LockSystem UInt32 UInt32 2, (s.threads 0).itemLockType ≠ (s.threads 1).itemLockType ∧
    (∃ type at', s.maintenance = .switch type at') ∧ s.assoc.expanding = false := by
  have hr : Run (Guarded GivesBackOwn (LockStep id id 1)) (.start 1 2 : LockSystem UInt32 UInt32 2) _ _ :=
    run_maintain rfl (.lockGlobal rfl rfl) <| run_maintain rfl (.lockCache rfl rfl) <|
    run_maintain rfl (.moved rfl fun h => by cases h.2) <| run_maintain rfl (.unlockGlobal rfl) <|
    run_maintain rfl (.done rfl rfl) <| run_maintain rfl (.lockInit rfl rfl) <|
    run_maintain rfl (.write (by decide) rfl) <| run_maintain rfl (.write (by decide) rfl) <|
    run_maintain rfl (.written rfl (by decide)) <| run_maintain rfl (.wait rfl (by decide)) <|
    run_worker (.readPipe 0) rfl (.readPipe rfl rfl) <| run_worker (.register 0) rfl (.register rfl rfl) <|
    run_worker (.readPipe 1) rfl (.readPipe rfl rfl) <| run_worker (.register 1) rfl (.register rfl rfl) <|
    run_maintain rfl (.wake rfl rfl) <| run_maintain rfl (.switched rfl (by decide)) <| run_resume rfl rfl <|
    run_maintain rfl (.lockIdle rfl rfl) <| run_maintain rfl (.startWait rfl) <| run_maintain rfl (.idle rfl rfl) <|
    run_maintain rfl (.awake rfl) <| run_maintain rfl (.pause rfl rfl) <| run_maintain rfl (.lockInit rfl rfl) <|
    run_maintain rfl (.write (by decide) rfl) <| run_maintain rfl (.write (by decide) rfl) <|
    run_maintain rfl (.written rfl (by decide)) <| run_maintain rfl (.wait rfl (by decide)) <|
    run_worker (.readPipe 0) rfl (.readPipe rfl rfl) <| run_worker (.register 0) rfl (.register rfl rfl) <|
    run_worker (.startCommand 0) rfl (.startCommand rfl) <|
    run_worker (.itemLock 0 7) rfl (.itemLock rfl rfl rfl rfl) <|
    run_worker (.startCommand 1) rfl (.startCommand rfl) <|
    run_worker (.itemLock 1 7) rfl (.itemLock rfl rfl rfl rfl) <| .nil _
  exact ⟨_, sections_apart (i := 0) (j := 1) hr (by decide) rfl rfl rfl rfl ⟨rfl, rfl⟩⟩

/-- While the page mover runs, every worker locks items one by one and none is told otherwise. -/
theorem pages_move_granular
    (hr : Run (Guarded GivesBackOwn (LockStep hash keyOf hashBulkMove)) (LockSystem.start hashpower n) events s)
    {cache : Bool} {look : Option Nat} (hrun : s.rebalance = .running cache look) (i : Fin n) :
    (s.threads i).itemLockType = .granular ∧ .lockType false ∉ (s.threads i).pipe ∧ s.assoc.expanding = false := by
  have h := lock_run_ok hr
  have hp := h.running hrun
  refine ⟨(h.paused.granular hp i).1, (h.paused.granular hp i).2, ?_⟩
  cases he : s.assoc.expanding with
  | false => rfl
  | true =>
    rw [h.paused.expanding he] at hp
    cases hp

/-- Before the first change. -/
theorem pages_move_granular_first : ∃ s : LockSystem UInt32 UInt32 1, s.rebalance = .running false none ∧
    (s.threads 0).itemLockType = .granular := by
  have hr : Run (Guarded GivesBackOwn (LockStep id id 1)) (.start 1 1 : LockSystem UInt32 UInt32 1) [.wakeRebalance] _ :=
    .single ⟨gives_back_nothing rfl, .rebalance (.wake rfl rfl)⟩
  exact ⟨_, rfl, (pages_move_granular hr rfl 0).1⟩

end

end RamCube
