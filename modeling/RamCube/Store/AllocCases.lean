import RamCube.Store.Allocating

/-! # What an allocation comes to

In a store that is in order the walk passes items without a trace. It ends at an item that
only its link refers to, at one that it repairs, or with nothing found. -/
namespace RamCube

variable {cfg : Settings} {env : LockEnv} {entry : List Nat} {curHv : UInt32} {s : Store} {held : Ptr → Nat}
  {live : List Ptr} {lru : SlabId → List Ptr} {m : ItemMemory} {ntotal : Nat} {id : SlabId}

instance (env : LockEnv) (entry : List Nat) (s : Store) (tries : Nat) (hv : UInt32) :
    Decidable (lockFree env entry s tries hv) :=
  inferInstanceAs (Decidable (_ ∧ _))

/-- Does the walk meet an item it repairs? -/
def repairFires (cfg : Settings) (env : LockEnv) (entry : List Nat) (curHv : UInt32) (s : Store) :
    Nat → Option Ptr → Bool
  | 0, _ => false
  | _ + 1, none => false
  | tries + 1, some search =>
    let hv := cfg.hash (s.key search)
    if hv ≠ curHv ∧ ¬lockFree env entry s (tries + 1) hv then
      repairFires cfg env entry curHv s tries (s.mem search).prev
    else if (s.mem search).refcount ≠ 1 then
      decide ((s.mem search).time + TAIL_REPAIR_TIME < s.currentTime) ||
        repairFires cfg env entry curHv s tries (s.mem search).prev
    else false

/-- The item of a search that ended with one. -/
def Search.item : Search → Option Ptr
  | .taken it => some it
  | _ => none

namespace ItemMemory

theorem onStore_eq_self {f : Store → Store} (h : f m.store = m.store) : m.onStore f = m := by
  rw [onStore, h]

/-- A look at an item leaves no trace on its count. -/
theorem passed (h : StoreOk cfg m.store held) (it : Ptr) :
    m.onStore (fun s => refcountDecr cfg (refcountIncr cfg s it) it) = m :=
  onStore_eq_self (refcountDecr_incr h it)

end ItemMemory

namespace Allocating

/-- How the walk over the items `ahead`, from the tail on, ends. -/
inductive WalkEnd (cfg : Settings) (newslab : Option (List Ptr)) (ntotal : Nat) (id : SlabId) (m : ItemMemory)
    (ahead : List Ptr) : ItemMemory → List Ptr → Search → Prop where
  | exhausted : WalkEnd cfg newslab ntotal id m ahead m [] .exhausted
  | stopped (p : Ptr) : p ∈ ahead → (m.store.mem p).refcount = 1 →
      WalkEnd cfg newslab ntotal id m ahead (m.stopAt cfg ntotal id newslab p (cfg.hash (m.store.key p))).1 []
        (m.stopAt cfg ntotal id newslab p (cfg.hash (m.store.key p))).2
  | repaired (p : Ptr) : p ∈ ahead → (m.store.mem p).refcount ≠ 1 →
      (m.store.mem p).time + TAIL_REPAIR_TIME < m.store.currentTime →
      WalkEnd cfg newslab ntotal id m ahead (m.tailRepair cfg p (cfg.hash (m.store.key p))) [p] .exhausted

theorem WalkEnd.mono {newslab : Option (List Ptr)} {ahead ahead' repaired : List Ptr} {m' : ItemMemory} {r : Search}
    (h : WalkEnd cfg newslab ntotal id m ahead m' repaired r) (hs : ∀ p ∈ ahead, p ∈ ahead') :
    WalkEnd cfg newslab ntotal id m ahead' m' repaired r := by
  cases h with
  | exhausted => exact .exhausted
  | stopped p hp h1 => exact .stopped p (hs p hp) h1
  | repaired p hp h1 ht => exact .repaired p (hs p hp) h1 ht

/-- How the walk goes on behind an item that it has looked at. -/
def afterLook (cfg : Settings) (env : LockEnv) (ntotal : Nat) (id : SlabId) (curHv : UInt32) (tries : Nat) (search : Ptr) :
    Allocating × Option Search → Allocating × Search
  | (a, none) => walk cfg env ntotal id curHv tries (a.memory.store.mem search).prev a
  | (a, some r) => (a, r)

theorem walk_succ (tries : Nat) (search : Ptr) (a : Allocating) :
    walk cfg env ntotal id curHv (tries + 1) (some search) a =
      let hv := cfg.hash (a.memory.store.key search)
      let a := { a with locks :=
        if hv ≠ curHv then a.locks.itemTrylock env a.memory.store (tries + 1) hv else a.locks }
      if hv ≠ curHv ∧ a.locks.holdLock = none then
        walk cfg env ntotal id curHv tries (a.memory.store.mem search).prev a
      else afterLook cfg env ntotal id curHv tries search (look cfg env ntotal id search hv a) := by
  rw [walk]
  rfl

theorem walk_end (h : ItemsOk cfg m.store held live lru) (hid : 1 ≤ id.val ∧ id.val ≤ cfg.slabclass.sizes.length)
    (tries : Nat) {l₁ l₂ : List Ptr} (hq : lru id = l₁ ++ l₂) {l : ItemLocks} (hl : l.Idle entry) :
    ∃ l' m' repaired r, walk cfg env ntotal id curHv tries l₁.getLast? ⟨m, l, []⟩ = (⟨m', l', repaired⟩, r) ∧
      WalkEnd cfg env.newslab ntotal id m (l₁.reverse.take tries) m' repaired r ∧
      (repairFires cfg env entry curHv m.store tries l₁.getLast? = true ↔ repaired ≠ []) := by
  induction tries generalizing l₁ l₂ l with
  | zero => exact ⟨l, m, [], .exhausted, rfl, .exhausted, by simp [repairFires]⟩
  | succ tries ih =>
    rcases List.eq_nil_or_concat l₁ with rfl | ⟨l₀, p, rfl⟩
    · exact ⟨l, m, [], .exhausted, rfl, .exhausted, by simp [repairFires]⟩
    · rw [List.concat_eq_append] at *
      have hlist := h.queues.list id
      rw [hq, List.append_assoc, List.singleton_append] at hlist
      have hprev := hlist.links.2
      have hmem : p ∈ lru id := by simp [hq]
      obtain ⟨hlive, hcls⟩ := (h.queued id p).mp hmem
      have hback : lru id = l₀ ++ p :: l₂ := by rw [hq, List.append_assoc, List.singleton_append]
      have hahead : (l₀ ++ [p]).reverse.take (tries + 1) = p :: l₀.reverse.take tries := by simp
      have hok : StoreOk cfg m.store held := ⟨live, lru, h⟩
      rw [List.getLast?_concat, hahead]
      simp only [walk_succ, repairFires]
      generalize hhv : cfg.hash (m.store.key p) = hv
      have hon : ∀ l', l'.itemTrylockUnlock.Idle entry → ∃ l'' m' repaired r,
          afterLook cfg env ntotal id curHv tries p (look cfg env ntotal id p hv ⟨m, l', []⟩) =
            (⟨m', l'', repaired⟩, r) ∧
          WalkEnd cfg env.newslab ntotal id m (p :: l₀.reverse.take tries) m' repaired r ∧
          ((if (m.store.mem p).refcount ≠ 1 then
              decide ((m.store.mem p).time + TAIL_REPAIR_TIME < m.store.currentTime) ||
                repairFires cfg env entry curHv m.store tries (m.store.mem p).prev
            else false) = true ↔ repaired ≠ []) := by
        intro l' hl'
        by_cases h1 : (m.store.mem p).refcount = 1
        · rw [look_free (a := ⟨m, l', []⟩) ((refcountIncr_eq_two hok p).mpr h1)]
          refine ⟨_, _, _, _, rfl, ?_, by simp [h1]⟩
          rw [← hhv]
          exact .stopped p List.mem_cons_self h1
        · have h2 : ((refcountIncr cfg m.store p).mem p).refcount ≠ 2 := fun he =>
            h1 ((refcountIncr_eq_two hok p).mp he)
          unfold look
          dsimp only
          rw [if_pos h2, ItemMemory.passed hok, if_pos h1]
          by_cases ho : (m.store.mem p).time + TAIL_REPAIR_TIME < m.store.currentTime
          · have hnone : ((m.tailRepair cfg p hv).store.mem p).prev = none := by
              rw [ItemMemory.store_tailRepair]
              exact prev_tailRepair ((h.table.linked p).mpr hlive) (by rw [hcls]; exact hid.1)
                (by rw [hcls]; exact hid.2) hv
            rw [if_pos (show m.overdue p = true from decide_eq_true ho)]
            dsimp only [afterLook]
            rw [hnone, walk_none]
            refine ⟨_, _, _, _, rfl, ?_, by simp [ho]⟩
            rw [← hhv]
            exact .repaired p List.mem_cons_self h1 ho
          · rw [if_neg (show ¬m.overdue p = true from fun he => ho (of_decide_eq_true he))]
            dsimp only [afterLook]
            rw [hprev]
            obtain ⟨l'', m', repaired, r, he, hend, hrep⟩ := ih hback hl'
            exact ⟨l'', m', repaired, r, he, hend.mono fun q hq => List.mem_cons_of_mem p hq, by simpa [ho] using hrep⟩
      by_cases hskip : hv ≠ curHv ∧ ¬lockFree env entry m.store (tries + 1) hv
      · rw [if_pos hskip.1, if_pos hskip, hl.trylock_taken hskip.2, if_pos ⟨hskip.1, rfl⟩, hprev]
        obtain ⟨l', m', repaired, r, he, hend, hrep⟩ := ih hback hl.skip
        exact ⟨l', m', repaired, r, he, hend.mono fun q hq => List.mem_cons_of_mem p hq, hrep⟩
      · rw [if_neg hskip]
        by_cases hcur : hv = curHv
        · rw [if_neg (not_not.mpr hcur), if_neg fun h => h.1 hcur]
          exact hon l hl.unlock
        · have hf : lockFree env entry m.store (tries + 1) hv := by
            by_contra hno
            exact hskip ⟨hcur, hno⟩
          rw [if_pos hcur, if_neg fun h => by rw [hl.trylock_free hf] at h; cases h.2]
          exact hon _ (hl.visited hf)

end Allocating

end RamCube
