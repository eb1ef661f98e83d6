import RamCube.Server.LockRuns

/-! # A change of the item locks comes to its end

A worker always can finish its command: it waits for no other thread to give its mutexes back.
Then it reads its pipe and reports in, so that `wait_for_thread_registration` returns. -/
namespace RamCube

variable {ι κ : Type} {n : Nat} {hash : κ → UInt32} {keyOf : ι → κ} {hashBulkMove : Int}

/-- Each `write` to a pipe of a worker succeeds. -/
def WritesSucceed (s : LockSystem ι κ n) (e : LockEvent ι κ n) : Prop :=
  ∀ type k, s.maintenance = .switch type (.write k) → e ≠ .maintain false

namespace LockSystem

open Classical in
/-- The workers that have something to read or to report. -/
noncomputable def unreported (s : LockSystem ι κ n) : Finset (Fin n) := Finset.univ.filter fun i => ¬(s.threads i).Quiet

/-- Who has been written to reports, or has reported. -/
def Counted (s : LockSystem ι κ n) : Prop :=
  match s.maintenance with
  | .switch _ (.write k) => ∀ i : Fin n, i < k → ¬(s.threads i).Quiet
  | .switch _ .await | .switch _ .blocked => s.initCount + s.unreported.card = n
  | _ => True

end LockSystem

section

variable {s t : LockSystem ι κ n} {i : Fin n} {e : LockEvent ι κ n} {ok : Bool} {k : Nat} {type : ItemLockType}

theorem mem_unreported : i ∈ s.unreported ↔ ¬(s.threads i).Quiet := by
  simp only [LockSystem.unreported, Finset.mem_filter, Finset.mem_univ, true_and]

theorem unreported_congr (ht : t.threads = s.threads) : t.unreported = s.unreported := by
  ext i
  rw [mem_unreported, mem_unreported, ht]

/-- A worker on its way to a change stays unreported until it reports. -/
theorem unreported_progress (hf : t.threads = Function.update s.threads i (t.threads i))
    (hp : Progress (s.threads i) (t.threads i) k) (hw : (s.threads i).OnTheWay type) :
    k + t.unreported.card = s.unreported.card ∧ (k = 0 → ((t.threads i).Quiet ↔ (s.threads i).Quiet)) := by
  have hother : ∀ j, j ≠ i → t.threads j = s.threads j := fun j hj => by rw [hf, Function.update_of_ne hj]
  have hsame : ((t.threads i).Quiet ↔ (s.threads i).Quiet) → t.unreported = s.unreported := by
    intro hq
    ext j
    rw [mem_unreported, mem_unreported]
    by_cases hj : j = i
    · rw [hj, hq]
    · rw [hother j hj]
  cases hp with
  | goes htold _ hpc =>
    have hq : (t.threads i).Quiet ↔ (s.threads i).Quiet := by
      rw [LibeventThread.Quiet, LibeventThread.Quiet, htold, hpc]
    exact ⟨by rw [hsame hq, Nat.zero_add], fun _ => hq⟩
  | reads hpipe hpc hpc' =>
    have hq : (t.threads i).Quiet ↔ (s.threads i).Quiet := by
      constructor
      · intro hq
        exact absurd (hq.2.symm.trans hpc') (by simp)
      · intro hq
        have htold := hq.1
        rw [told_cons hpipe] at htold
        cases htold
    exact ⟨by rw [hsame hq, Nat.zero_add], fun _ => hq⟩
  | reports hpipe _ hpc hpc' =>
    refine ⟨?_, by simp⟩
    have hnot : i ∉ t.unreported := by
      rw [mem_unreported, not_not]
      refine ⟨?_, hpc'⟩
      rw [LibeventThread.told, hpipe]
      rcases hw.told with hnil | ⟨_, hno⟩
      · exact hnil
      · exact absurd (hno.symm.trans hpc) (by simp)
    have hins : s.unreported = insert i t.unreported := by
      ext j
      rw [Finset.mem_insert, mem_unreported, mem_unreported]
      by_cases hj : j = i
      · subst hj
        exact iff_of_true (fun hq => absurd (hq.2.symm.trans hpc) (by simp)) (.inl rfl)
      · rw [hother j hj, or_iff_right hj]
    rw [hins, Finset.card_insert_of_notMem hnot, Nat.add_comm]

theorem LockSystem.Counted.progress (h : s.Counted) (hsw : s.SwitchOk) (hf : WorkerFrame s i t)
    (hp : Progress (s.threads i) (t.threads i) k) (hc : t.initCount = s.initCount + k) (ho : s.Owned)
    (hinit : k = 1 → s.owner .init = none) : t.Counted := by
  unfold LockSystem.Counted at h ⊢
  rw [hf.maintenance]
  cases hm : s.maintenance with
  | lockGlobal | lockCache | bulk | unlockGlobal | testExpanding | unlockExpand | resume | lockIdle | startWait | idle
  | awake | pause | lockExpand | expand => trivial
  | switch type at' =>
    unfold LockSystem.SwitchOk at hsw
    rw [hm] at h hsw
    cases at' with
    | lockInit => trivial
    | await | blocked =>
      have hcard := (unreported_progress hf.threads hp (hsw.2.workers i)).1
      have hsum : s.initCount + s.unreported.card = n := h
      show t.initCount + t.unreported.card = n
      omega
    | write m =>
      intro j hj
      have hk : k = 0 := by
        have hle : k = 0 ∨ k = 1 := by cases hp <;> simp
        rcases hle with hk | hk
        · exact hk
        · refine absurd ?_ (ho.not_held (t := .maintenance) (hinit hk))
          simp [LockSystem.held, hm, MaintenancePc.held]
      by_cases hji : j = i
      · subst hji
        rw [(unreported_progress hf.threads hp (hsw.2.1.workers j)).2 hk]
        exact h j hj
      · rw [hf.threads, Function.update_of_ne hji]
        exact h j hj

theorem MaintenanceStep.counted (hs : MaintenanceStep hash keyOf hashBulkMove s ok t) (h : s.Counted) (hsw : s.SwitchOk)
    (hw : WritesSucceed s (.maintain ok)) : t.Counted := by
  unfold LockSystem.Counted at h
  cases hs with
  | lockGlobal | lockCache | move | moved | unlockGlobal | more | done | resume | lockIdle | startWait | idle | awake | pause
  | lockExpand | expand | unlockExpand => trivial
  | lockInit hm =>
    intro i hi
    exact absurd hi (Nat.not_lt_zero _)
  | @write type k hk hm =>
    rw [hm] at h
    have hok : ok = true := by
      cases ok with
      | true => rfl
      | false => exact absurd rfl (hw type k hm)
    subst hok
    intro i hi
    rw [show ((if true = true then s.write ⟨k, hk⟩ type.byte else s).maintain (.switch type (.write (k + 1)))).threads =
      Function.update s.threads ⟨k, hk⟩ { s.threads ⟨k, hk⟩ with pipe := (s.threads ⟨k, hk⟩).pipe ++ [type.byte] } from rfl]
    by_cases hik : i = ⟨k, hk⟩
    · subst hik
      rw [Function.update_self]
      intro hq
      have htold := hq.1
      rw [LibeventThread.told, List.filter_append] at htold
      exact absurd (List.append_eq_nil_iff.mp htold).2 (by simp [ItemLockType.byte, PipeByte.isLockType])
    · rw [Function.update_of_ne hik]
      refine h i (lt_of_le_of_ne (Nat.lt_succ_iff.mp hi) fun he => hik (Fin.ext he))
  | @written type k hm hk =>
    unfold LockSystem.SwitchOk at hsw
    rw [hm] at h hsw
    have hall : s.unreported = Finset.univ := by
      ext i
      rw [mem_unreported]
      exact iff_of_true (h i (lt_of_lt_of_le i.isLt hk)) (Finset.mem_univ i)
    show s.initCount + s.unreported.card = n
    rw [hall, hsw.2.2.1, Finset.card_univ, Fintype.card_fin, Nat.zero_add]
  | wait hm | wake hm =>
    rw [hm] at h
    exact h
  | @switched type hm =>
    cases type <;> trivial

variable [DecidableEq κ]

theorem LockStep.counted (hs : LockStep hash keyOf hashBulkMove s e t) (h : s.Counted) (hok : LockOk hash s)
    (hw : WritesSucceed s e) : t.Counted := by
  cases hs with
  | notify i =>
    obtain ⟨hf, hp⟩ := notify_frame s i
    exact h.progress hok.switch hf hp rfl hok.owned (by simp)
  | worker hw =>
    obtain ⟨k, hp, hc, hinit⟩ := hw.progress
    exact h.progress hok.switch hw.frame hp hc hok.owned hinit
  | maintenance hm => exact hm.counted h hok.switch hw
  | rebalance hr =>
    obtain ⟨ht, hm, _, _, _, hc⟩ := hr.frame
    unfold LockSystem.Counted at h ⊢
    rw [hm]
    cases hpc : s.maintenance with
    | switch type at' =>
      rw [hpc] at h
      cases at' with
      | write k =>
        intro i hi
        rw [ht]
        exact h i hi
      | await | blocked => exact (by rw [hc, unreported_congr ht]; exact h : t.initCount + t.unreported.card = n)
      | lockInit => trivial
    | lockGlobal | lockCache | bulk | unlockGlobal | testExpanding | unlockExpand | resume | lockIdle | startWait | idle
    | awake | pause | lockExpand | expand => trivial

/-! ## A worker finishes and reports -/

/-- Steps of worker `i` alone, which leave `init_lock` and the maintenance thread as they are. -/
structure Alone (hash : κ → UInt32) (keyOf : ι → κ) (hashBulkMove : Int) (i : Fin n) (s t : LockSystem ι κ n) : Prop where
  run : ∃ events, Run (LockStep hash keyOf hashBulkMove) s events t
  others : ∀ j, j ≠ i → t.threads j = s.threads j
  maintenance : t.maintenance = s.maintenance
  init : t.owner .init = s.owner .init

theorem Alone.refl (s : LockSystem ι κ n) (i : Fin n) : Alone hash keyOf hashBulkMove i s s :=
  ⟨⟨[], .nil s⟩, fun _ _ => rfl, rfl, rfl⟩

theorem Alone.trans {u : LockSystem ι κ n} (h : Alone hash keyOf hashBulkMove i s t) (h' : Alone hash keyOf hashBulkMove i t u) :
    Alone hash keyOf hashBulkMove i s u := by
  obtain ⟨events, hr⟩ := h.run
  obtain ⟨events', hr'⟩ := h'.run
  exact ⟨⟨events ++ events', hr.append hr'⟩, fun j hj => (h'.others j hj).trans (h.others j hj),
    h'.maintenance.trans h.maintenance, h'.init.trans h.init⟩

theorem LibeventStep.alone (hs : LibeventStep hash keyOf s i e t) (hinit : t.owner .init = s.owner .init) :
    Alone hash keyOf hashBulkMove i s t :=
  ⟨⟨[e], .single (.worker hs)⟩, fun j hj => by rw [hs.frame.threads, Function.update_of_ne hj], hs.frame.maintenance, hinit⟩

/-- Worker `i` goes to another place, with the same pipe and the same kind of lock. -/
structure GoesTo (hash : κ → UInt32) (keyOf : ι → κ) (hashBulkMove : Int) (i : Fin n) (pc : WorkerPc κ) (s t : LockSystem ι κ n) :
    Prop extends Alone hash keyOf hashBulkMove i s t where
  self : t.threads i = { s.threads i with pc := pc }
  count : t.initCount = s.initCount

omit [DecidableEq κ] in
theorem release_self {m : Mutex} : (s.release m).owner m = none := by
  simp only [LockSystem.release, Function.update_self]

omit [DecidableEq κ] in
theorem release_init {m : Mutex} (hm : m ≠ .init) : (s.release m).owner .init = s.owner .init :=
  Function.update_of_ne hm.symm ..

omit [DecidableEq κ] in
theorem giveBack_init (holdLock : Option Nat) : (s.giveBack holdLock).owner .init = s.owner .init := by
  cases holdLock with
  | none => rfl
  | some k => exact release_init (by simp)

theorem GoesTo.trans {u : LockSystem ι κ n} {pc pc' : WorkerPc κ} (h : GoesTo hash keyOf hashBulkMove i pc s t)
    (h' : GoesTo hash keyOf hashBulkMove i pc' t u) : GoesTo hash keyOf hashBulkMove i pc' s u :=
  ⟨h.toAlone.trans h'.toAlone, by rw [h'.self, h.self], h'.count.trans h.count⟩

theorem LibeventStep.goesTo {u : LockSystem ι κ n} {pc : WorkerPc κ} (hs : LibeventStep hash keyOf s i e (u.setPc i pc))
    (ht : u.threads = s.threads) (hc : u.initCount = s.initCount) (hinit : u.owner .init = s.owner .init) :
    GoesTo hash keyOf hashBulkMove i pc s (u.setPc i pc) :=
  ⟨hs.alone hinit, LockSystem.threads_setPc ht, hc⟩

omit [DecidableEq κ] in
theorem itemMutex_ne_init (s : LockSystem ι κ n) (type : ItemLockType) (hv : UInt32) : s.itemMutex type hv ≠ .init := by
  cases type <;> simp [LockSystem.itemMutex]

/-- A worker gives its mutexes back and finishes its command. -/
theorem finish_command (hash : κ → UInt32) (keyOf : ι → κ) (hashBulkMove : Int) {w : Work κ} (hpc : (s.threads i).pc = .command w) :
    ∃ t, GoesTo hash keyOf hashBulkMove i .eventLoop s t := by
  have hlook : ∃ t w', GoesTo hash keyOf hashBulkMove i (.command w') s t ∧ w'.look = .none := by
    by_cases hl : w.look = .none
    · exact ⟨s, w, ⟨Alone.refl s i, by rw [← hpc], rfl⟩, hl⟩
    · obtain ⟨ht, _, _, _, hc⟩ := s.giveBack_frame w.holdLock
      exact ⟨_, _, LibeventStep.goesTo (.lookEnd hpc hl) ht hc (giveBack_init w.holdLock), rfl⟩
  have hcache : ∃ t w', GoesTo hash keyOf hashBulkMove i (.command w') s t ∧ w'.cache = false := by
    obtain ⟨t, w', ht, hl⟩ := hlook
    cases hc : w'.cache with
    | false => exact ⟨t, w', ht, hc⟩
    | true =>
      have hpc' : (t.threads i).pc = .command w' := by rw [ht.self]
      exact ⟨_, _, ht.trans (LibeventStep.goesTo (.unlockCache hpc' hc hl) rfl rfl (release_init (by simp))), rfl⟩
  have hsect : ∃ t w', GoesTo hash keyOf hashBulkMove i (.command w') s t ∧ w'.cache = false ∧ w'.sect = none := by
    obtain ⟨t, w', ht, hc⟩ := hcache
    cases hs : w'.sect with
    | none => exact ⟨t, w', ht, hc, hs⟩
    | some σ =>
      have hpc' : (t.threads i).pc = .command w' := by rw [ht.self]
      exact ⟨_, _, ht.trans (LibeventStep.goesTo (.itemUnlock hpc' hs hc) rfl rfl (release_init (itemMutex_ne_init t _ _))), hc, rfl⟩
  obtain ⟨t, w', ht, hc, hs⟩ := hsect
  have hpc' : (t.threads i).pc = .command w' := by rw [ht.self]
  exact ⟨_, ht.trans (LibeventStep.goesTo (.endCommand hpc' hs hc) rfl rfl rfl)⟩

/-- What a worker does to be counted. -/
structure Reports (hash : κ → UInt32) (keyOf : ι → κ) (hashBulkMove : Int) (i : Fin n) (s t : LockSystem ι κ n) : Prop
    extends Alone hash keyOf hashBulkMove i s t where
  quiet : (t.threads i).Quiet
  count : t.initCount = s.initCount + 1

theorem register_reports (hash : κ → UInt32) (keyOf : ι → κ) (hashBulkMove : Int) (hpc : (s.threads i).pc = .registering)
    (hnil : (s.threads i).told = []) (hfree : s.owner .init = none) : ∃ t, Reports hash keyOf hashBulkMove i s t := by
  refine ⟨_, ⟨(LibeventStep.register hpc hfree).alone rfl, ?_, rfl⟩⟩
  rw [show ({ s.setPc i .eventLoop with initCount := s.initCount + 1 } : LockSystem ι κ n).threads i =
    { s.threads i with pc := .eventLoop } from LockSystem.threads_setPc rfl]
  exact ⟨hnil, rfl⟩

/-- A worker reads its pipe as far as the byte of the change. -/
theorem read_reports (hash : κ → UInt32) (keyOf : ι → κ) (hashBulkMove : Int) (pipe : List PipeByte)
    (hpipe : (s.threads i).pipe = pipe) (hpc : (s.threads i).pc = .eventLoop)
    (htold : (s.threads i).told = [type.byte]) (hfree : s.owner .init = none) : ∃ t, Reports hash keyOf hashBulkMove i s t := by
  induction pipe generalizing s with
  | nil =>
    rw [LibeventThread.told, hpipe] at htold
    cases htold
  | cons b rest ih =>
    have hstep : LibeventStep hash keyOf s i (.readPipe i) _ := .readPipe hpc hpipe
    have halone : Alone hash keyOf hashBulkMove i s _ := hstep.alone rfl
    have hself : (s.setThread i (threadLibeventProcess { s.threads i with pipe := rest } b)).threads i =
        threadLibeventProcess { s.threads i with pipe := rest } b := Function.update_self ..
    cases b with
    | conn =>
      rw [LibeventThread.told, hpipe] at htold
      obtain ⟨t, ht⟩ := @ih (s.setThread i (threadLibeventProcess { s.threads i with pipe := rest } .conn))
        (by rw [hself]; rfl) (by rw [hself]; exact hpc) (by rw [hself]; exact htold) hfree
      exact ⟨t, halone.trans ht.toAlone, ht.quiet, ht.count⟩
    | lockType granular =>
      have hnil : rest.filter PipeByte.isLockType = [] := by
        rw [LibeventThread.told, hpipe, List.filter_cons_of_pos rfl] at htold
        exact (List.cons.inj htold).2
      obtain ⟨t, ht⟩ := register_reports hash keyOf hashBulkMove
        (s := s.setThread i (threadLibeventProcess { s.threads i with pipe := rest } (.lockType granular))) (i := i)
        (by rw [hself]; cases granular <;> rfl) (by rw [hself]; cases granular <;> exact hnil) hfree
      exact ⟨t, halone.trans ht.toAlone, ht.quiet, ht.count⟩

theorem worker_reports (hash : κ → UInt32) (keyOf : ι → κ) (hashBulkMove : Int) (hw : (s.threads i).OnTheWay type)
    (hq : ¬(s.threads i).Quiet) (hfree : s.owner .init = none) : ∃ t, Reports hash keyOf hashBulkMove i s t := by
  rcases hw.told with hnil | ⟨hone, hno⟩
  · have hpc : (s.threads i).pc = .registering := by
      cases hpc : (s.threads i).pc with
      | registering => rfl
      | eventLoop => exact absurd ⟨hnil, by rw [hpc]; rfl⟩ hq
      | command w => exact absurd ⟨hnil, by rw [hpc]; rfl⟩ hq
    exact register_reports hash keyOf hashBulkMove hpc hnil hfree
  · cases hpc : (s.threads i).pc with
    | registering =>
      rw [hpc] at hno
      cases hno
    | eventLoop => exact read_reports hash keyOf hashBulkMove _ rfl hpc hone hfree
    | command w =>
      obtain ⟨u, hu⟩ := finish_command hash keyOf hashBulkMove hpc
      obtain ⟨t, ht⟩ := read_reports hash keyOf hashBulkMove (s := u) (i := i) _ rfl
        (by rw [hu.self]) (by rw [hu.self]; exact hone) (hu.init.trans hfree)
      exact ⟨t, hu.toAlone.trans ht.toAlone, ht.quiet, ht.count.trans (by rw [hu.count])⟩

/-! ## The change -/

/-- Every worker that is to report does. -/
theorem all_report (hash : κ → UInt32) (keyOf : ι → κ) (hashBulkMove : Int) (m : Nat) (hm : s.unreported.card = m)
    (hw : ∀ i, (s.threads i).OnTheWay type) (hfree : s.owner .init = none) : ∃ events t, Run (LockStep hash keyOf hashBulkMove) s events t ∧ t.initCount = s.initCount + m ∧
      t.maintenance = s.maintenance ∧ t.owner .init = none := by
  induction m generalizing s with
  | zero => exact ⟨[], s, .nil s, rfl, rfl, hfree⟩
  | succ m ih =>
    obtain ⟨i, hi⟩ := Finset.card_pos.mp (by omega : 0 < s.unreported.card)
    obtain ⟨u, hu⟩ := worker_reports hash keyOf hashBulkMove (hw i) (mem_unreported.mp hi) hfree
    have hrest : u.unreported = s.unreported.erase i := by
      ext j
      rw [Finset.mem_erase, mem_unreported, mem_unreported]
      by_cases hj : j = i
      · subst hj
        exact iff_of_false (not_not.mpr hu.quiet) fun h => h.1 rfl
      · rw [hu.others j hj, and_iff_right hj]
    have hway : ∀ j, (u.threads j).OnTheWay type := by
      intro j
      by_cases hj : j = i
      · subst hj
        exact ⟨.inl hu.quiet.1, fun hr => absurd (hu.quiet.2.symm.trans hr) (by simp)⟩
      · rw [hu.others j hj]
        exact hw j
    obtain ⟨events', t, hr', hc, hmt, ho⟩ := ih (by rw [hrest, Finset.card_erase_of_mem hi]; omega) hway (hu.init.trans hfree)
    obtain ⟨events, hr⟩ := hu.run
    refine ⟨events ++ events', t, hr.append hr', ?_, hmt.trans hu.maintenance, ho⟩
    rw [hc, hu.count]
    omega

omit [DecidableEq κ] in
/-- Only the maintenance thread has `init_lock` between two steps. -/
theorem LockSystem.Owned.init_free (h : s.Owned) (hsec : SectionsOk hash s) (hm : .init ∉ s.maintenance.held) :
    s.owner .init = none := by
  cases ho : s.owner .init with
  | none => rfl
  | some u =>
    have hheld := (h _ _).mp ho
    cases u with
    | maintenance =>
      rcases List.mem_append.mp hheld with hin | hin
      · exact absurd hin hm
      · split at hin <;> simp at hin
    | rebalance =>
      cases hr : s.rebalance with
      | waiting => simp [LockSystem.held, hr, RebalancePc.held] at hheld
      | running cache look => cases cache <;> simp [LockSystem.held, hr, RebalancePc.held] at hheld
    | worker i =>
      cases hpc : (s.threads i).pc with
      | eventLoop | registering => simp [LockSystem.held, hpc, WorkerPc.held] at hheld
      | command w =>
        simp only [LockSystem.held, hpc, WorkerPc.held] at hheld
        rcases Work.mem_held.mp hheld with hin | ⟨_, hin⟩ | ⟨σ, hσ, hin⟩
        · cases hl : w.look <;> simp [hl, Look.held] at hin
        · cases hin
        · exact absurd (((hsec i w hpc).mutex σ hσ).symm.trans hin) (itemMutex_ne_init s _ _)

/-- What `assoc_maintenance_thread` does after `switch_item_lock_type` has returned. -/
def ItemLockType.next : ItemLockType → MaintenancePc
  | .granular => .resume
  | .global => .lockExpand

/-- There is a way to the end of the change. -/
def CanEnd (hash : κ → UInt32) (keyOf : ι → κ) (hashBulkMove : Int) (type : ItemLockType) (s : LockSystem ι κ n) : Prop :=
  ∃ events t, Run (LockStep hash keyOf hashBulkMove) s events t ∧ t.maintenance = type.next

theorem CanEnd.of_run {events : List (LockEvent ι κ n)} (hr : Run (LockStep hash keyOf hashBulkMove) s events t)
    (h : CanEnd hash keyOf hashBulkMove type t) : CanEnd hash keyOf hashBulkMove type s := by
  obtain ⟨events', u, hr', hu⟩ := h
  exact ⟨events ++ events', u, hr.append hr', hu⟩

theorem CanEnd.of_step (hs : MaintenanceStep hash keyOf hashBulkMove s ok t) (h : CanEnd hash keyOf hashBulkMove type t) :
    CanEnd hash keyOf hashBulkMove type s :=
  h.of_run (.single (.maintenance hs))

theorem canEnd_await_counted (hm : s.maintenance = .switch type .await) (hc : n ≤ s.initCount) :
    CanEnd hash keyOf hashBulkMove type s := by
  refine ⟨[.maintain true], _, .single (.maintenance (.switched hm hc)), ?_⟩
  cases type <;> rfl

theorem canEnd_blocked (hm : s.maintenance = .switch type .blocked) (hsw : s.SwitchOk) (hc : s.Counted)
    (hfree : s.owner .init = none) : CanEnd hash keyOf hashBulkMove type s := by
  unfold LockSystem.SwitchOk at hsw
  unfold LockSystem.Counted at hc
  rw [hm] at hsw hc
  obtain ⟨events, t, hr, hcount, hmt, ho⟩ := all_report hash keyOf hashBulkMove _ rfl
    hsw.2.workers hfree
  have hstep : MaintenanceStep hash keyOf hashBulkMove t true _ := .wake (hmt.trans hm) ho
  refine CanEnd.of_run hr (CanEnd.of_step hstep (canEnd_await_counted rfl ?_))
  exact Nat.le_of_eq (hc.symm.trans hcount.symm)

theorem canEnd_await (hm : s.maintenance = .switch type .await) (hsw : s.SwitchOk) (hc : s.Counted) :
    CanEnd hash keyOf hashBulkMove type s := by
  by_cases hcount : n ≤ s.initCount
  · exact canEnd_await_counted hm hcount
  · have hstep : MaintenanceStep hash keyOf hashBulkMove s true _ := .wait hm (by omega)
    refine CanEnd.of_step hstep (canEnd_blocked rfl (hstep.switchOk hsw) (hstep.counted hc hsw fun type k hw => ?_) ?_)
    · rw [hm] at hw
      cases hw
    · exact release_self (s := s) (m := .init)

theorem canEnd_write (m : Nat) (hk : n - k = m) (hm : s.maintenance = .switch type (.write k)) (hsw : s.SwitchOk) (hc : s.Counted) :
    CanEnd hash keyOf hashBulkMove type s := by
  induction m generalizing s k with
  | zero =>
    have hstep : MaintenanceStep hash keyOf hashBulkMove s true _ := .written hm (by omega)
    exact CanEnd.of_step hstep (canEnd_await rfl (hstep.switchOk hsw) (hstep.counted hc hsw fun _ _ _ he => by cases he))
  | succ m ih =>
    have hlt : k < n := by omega
    have hstep : MaintenanceStep hash keyOf hashBulkMove s true _ := .write hlt hm
    exact CanEnd.of_step hstep (ih (k := k + 1) (by omega) rfl (hstep.switchOk hsw)
      (hstep.counted hc hsw fun _ _ _ he => by cases he))

theorem canEnd_lockInit (hm : s.maintenance = .switch type .lockInit) (hsw : s.SwitchOk) (hc : s.Counted)
    (hfree : s.owner .init = none) : CanEnd hash keyOf hashBulkMove type s := by
  have hstep : MaintenanceStep hash keyOf hashBulkMove s true _ := .lockInit hm hfree
  exact CanEnd.of_step hstep (canEnd_write _ rfl rfl (hstep.switchOk hsw) (hstep.counted hc hsw fun _ _ _ he => by cases he))

/-- However far a change of the item locks has come and whatever the workers are at, the threads can
go on so that it ends. -/
theorem lock_switch_can_end {hashpower : Nat} {events : List (LockEvent ι κ n)} {at' : SwitchPc}
    (hr : Run (Guarded (fun s e => GivesBackOwn s e ∧ WritesSucceed s e) (LockStep hash keyOf hashBulkMove))
      (LockSystem.start hashpower n) events s) (hm : s.maintenance = .switch type at') :
    CanEnd hash keyOf hashBulkMove type s := by
  have hinv : LockOk hash s ∧ s.Counted := by
    refine hr.invariant_of_guard (I := fun u => LockOk hash u ∧ u.Counted) (fun u e v h hc hs => ?_) ⟨lockOk_start hashpower n, trivial⟩
    exact ⟨hs.keeps h.1 hc.1, hs.counted h.2 h.1 hc.2⟩
  obtain ⟨hok, hcounted⟩ := hinv
  have hfree : .init ∉ s.maintenance.held → s.owner .init = none := hok.owned.init_free hok.sections
  cases at' with
  | lockInit => exact canEnd_lockInit hm hok.switch hcounted (hfree (by rw [hm]; simp [MaintenancePc.held]))
  | write k => exact canEnd_write _ rfl hm hok.switch hcounted
  | await => exact canEnd_await hm hok.switch hcounted
  | blocked => exact canEnd_blocked hm hok.switch hcounted (hfree (by rw [hm]; simp [MaintenancePc.held]))

/-- A worker is in a section when the byte is written to it. -/
theorem lock_switch_can_end_command : ∃ s : LockSystem UInt32 UInt32 1, s.maintenance = .switch .granular (.write 1) ∧
    (∃ w, (s.threads 0).pc = .command w ∧ w.sect.isSome = true) ∧ CanEnd id id 1 .granular s := by
  have hcons : ∀ {s t u : LockSystem UInt32 UInt32 1} {es : List (LockEvent UInt32 UInt32 1)} (e : LockEvent UInt32 UInt32 1),
      s.givenBack e = [] → (∀ type k, s.maintenance = .switch type (.write k) → e ≠ .maintain false) → LockStep id id 1 s e t →
      Run (Guarded (fun s e => GivesBackOwn s e ∧ WritesSucceed s e) (LockStep id id 1)) t es u →
      Run (Guarded (fun s e => GivesBackOwn s e ∧ WritesSucceed s e) (LockStep id id 1)) s (e :: es) u :=
    fun e hg hw hs => .cons ⟨⟨gives_back_nothing hg, hw⟩, hs⟩
  have hm : ∀ {s t u : LockSystem UInt32 UInt32 1} {es : List (LockEvent UInt32 UInt32 1)}, s.givenBack (.maintain true) = [] →
      MaintenanceStep id id 1 s true t →
      Run (Guarded (fun s e => GivesBackOwn s e ∧ WritesSucceed s e) (LockStep id id 1)) t es u →
      Run (Guarded (fun s e => GivesBackOwn s e ∧ WritesSucceed s e) (LockStep id id 1)) s (.maintain true :: es) u :=
    fun hg hs => hcons _ hg (fun _ _ _ he => by cases he) (.maintenance hs)
  have hr := hm rfl (.lockGlobal (s := .start 1 1) rfl rfl) (hm rfl (.lockCache rfl rfl)
    (hm rfl (.moved rfl fun h => by cases h.2) (hm rfl (.unlockGlobal rfl) (hm rfl (.done rfl rfl)
      (hcons (.startCommand 0) rfl (fun _ _ _ he => by cases he) (.worker (.startCommand rfl))
        (hcons (.itemLock 0 7) rfl (fun _ _ _ he => by cases he) (.worker (.itemLock rfl rfl rfl rfl))
          (hm rfl (.lockInit rfl rfl) (hm rfl (.write (by decide) rfl) (.nil _)))))))))
  exact ⟨_, rfl, ⟨_, rfl, rfl⟩, lock_switch_can_end hr rfl⟩

end

end RamCube
