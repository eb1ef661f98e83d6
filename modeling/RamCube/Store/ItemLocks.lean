import RamCube.Store.Allocating

/-! # The item locks an allocation gives back

The handle `hold_lock` outlives the item it was taken for. An item whose hash value is the
caller's own is looked at without a lock of its own, so if the handle of an item before it
is still set, that lock is given back once more. -/
namespace RamCube

variable {cfg : Settings} {env : LockEnv} {entry : List Nat} {curHv : UInt32} {s : Store}

/-! ## What a thread has locked -/

def LockOp.apply : List Nat → LockOp → List Nat
  | locks, .acquire lock => lock :: locks
  | locks, .release lock => locks.erase lock

/-- The locks acquired by these operations and not yet released. -/
def ownLocks (ops : List LockOp) : List Nat := ops.foldl LockOp.apply []

/-- Each lock that is released is one of the thread's own. -/
def ReleasesOwn (ops : List LockOp) : Prop :=
  ∀ before lock after, ops = before ++ .release lock :: after → lock ∈ ownLocks before

/-- A call releases only locks it has itself acquired and not yet released, and the thread
has afterwards the locks it had before. -/
structure LocksKept (entry : List Nat) (l : ItemLocks) : Prop where
  own : ReleasesOwn l.ops
  returned : l.held = entry

theorem ownLocks_append (ops ops' : List LockOp) : ownLocks (ops ++ ops') = ops'.foldl LockOp.apply (ownLocks ops) :=
  List.foldl_append

theorem releasesOwn_nil : ReleasesOwn [] := by
  intro before lock after he
  simp at he

theorem ReleasesOwn.of_append {ops more : List LockOp} (h : ReleasesOwn (ops ++ more)) : ReleasesOwn ops := by
  intro before lock after he
  exact h before lock (after ++ more) (by rw [he]; simp)

theorem releasesOwn_concat {ops : List LockOp} {op : LockOp} : ReleasesOwn (ops ++ [op]) ↔
    ReleasesOwn ops ∧ ∀ lock, op = .release lock → lock ∈ ownLocks ops := by
  constructor
  · intro h
    exact ⟨h.of_append, fun lock he => h ops lock [] (by rw [he])⟩
  · rintro ⟨h, hop⟩ before lock after he
    rcases List.eq_nil_or_concat after with rfl | ⟨after', last, rfl⟩
    · obtain ⟨rfl, he'⟩ := List.append_inj' he rfl
      exact hop lock (List.singleton_inj.mp he')
    · rw [List.concat_eq_append, ← List.cons_append, ← List.append_assoc] at he
      obtain ⟨he, _⟩ := List.append_inj' he rfl
      exact h before lock after' he

/-! ## The items on the way -/

/-- The items the walk can come to, each with the tries left at it. -/
def visits : Nat → List Ptr → List (Nat × Ptr)
  | 0, _ => []
  | _ + 1, [] => []
  | tries + 1, p :: ps => (tries + 1, p) :: visits tries ps

section

variable (cfg : Settings) (env : LockEnv) (entry : List Nat) (curHv : UInt32) (s : Store)

/-- The item has the hash value of the caller's key. -/
def SameHash (v : Nat × Ptr) : Prop := cfg.hash (s.key v.2) = curHv

/-- The walk locks the item when it comes to it. -/
def Locks (v : Nat × Ptr) : Prop :=
  ¬SameHash cfg curHv s v ∧ lockFree env entry s v.1 (cfg.hash (s.key v.2))

/-- The item is referred to, and not for so long that the walk repairs it. -/
def BusyItem (v : Nat × Ptr) : Prop :=
  ((refcountIncr cfg s v.2).mem v.2).refcount ≠ 2 ∧
    ¬(s.mem v.2).time + TAIL_REPAIR_TIME < s.currentTime

/-- The walk goes on behind the item: it cannot lock it, or finds it busy. -/
def PassedOver (v : Nat × Ptr) : Prop :=
  (¬SameHash cfg curHv s v ∧ ¬Locks cfg env entry curHv s v) ∨ BusyItem cfg s v

/-- The walk locks an item, passes it over, and the next item has the hash value of the
caller. -/
def StaleHandle (vs : List (Nat × Ptr)) : Prop :=
  ∃ before busy same after, vs = before ++ busy :: same :: after ∧
    (∀ v ∈ before ++ [busy], PassedOver cfg env entry curHv s v) ∧
    Locks cfg env entry curHv s busy ∧ SameHash cfg curHv s same

/-- The walk meets an item of the hash value of the caller while the handle is set;
`left` says whether it is set at the start. -/
def HandleMet : Bool → List (Nat × Ptr) → Prop
  | _, [] => False
  | left, v :: vs => (SameHash cfg curHv s v ∧ left = true) ∨ (PassedOver cfg env entry curHv s v ∧
      ((Locks cfg env entry curHv s v ∧ HandleMet true vs) ∨
        (¬Locks cfg env entry curHv s v ∧ HandleMet false vs)))

end

theorem staleHandle_cons {v : Nat × Ptr} {vs : List (Nat × Ptr)} : StaleHandle cfg env entry curHv s (v :: vs) ↔
    PassedOver cfg env entry curHv s v ∧ ((Locks cfg env entry curHv s v ∧
      ∃ same after, vs = same :: after ∧ SameHash cfg curHv s same) ∨ StaleHandle cfg env entry curHv s vs) := by
  constructor
  · rintro ⟨before, busy, same, after, he, hpass, hlock, hsame⟩
    cases before with
    | nil =>
      obtain ⟨rfl, rfl⟩ := List.cons.inj he
      exact ⟨hpass v (by simp), .inl ⟨hlock, same, after, rfl, hsame⟩⟩
    | cons b before =>
      obtain ⟨rfl, rfl⟩ := List.cons.inj he
      exact ⟨hpass v (by simp), .inr ⟨before, busy, same, after, rfl, 
        fun u hu => hpass u (List.mem_cons_of_mem v hu), hlock, hsame⟩⟩
  · rintro ⟨hv, ⟨hlock, same, after, rfl, hsame⟩ | ⟨before, busy, same, after, rfl, hpass, hlock, hsame⟩⟩
    · exact ⟨[], v, same, after, rfl, by simpa using hv, hlock, hsame⟩
    · refine ⟨v :: before, busy, same, after, rfl, fun u hu => ?_, hlock, hsame⟩
      rcases List.mem_cons.mp hu with rfl | hu
      · exact hv
      · exact hpass u hu

/-- Either the handle set at the start is met at once, or one that the walk has set. -/
theorem handleMet_iff (left : Bool) (vs : List (Nat × Ptr)) : HandleMet cfg env entry curHv s left vs ↔
    (left = true ∧ ∃ same after, vs = same :: after ∧ SameHash cfg curHv s same) ∨
      StaleHandle cfg env entry curHv s vs := by
  induction vs generalizing left with
  | nil => simp [HandleMet, StaleHandle]
  | cons v vs ih =>
    rw [HandleMet, ih, ih, staleHandle_cons]
    constructor
    · rintro (⟨hs, hl⟩ | ⟨hp, ⟨hk, ⟨_, hm⟩ | hm⟩ | ⟨_, ⟨h, _⟩ | hm⟩⟩)
      · exact .inl ⟨hl, v, vs, rfl, hs⟩
      · exact .inr ⟨hp, .inl ⟨hk, hm⟩⟩
      · exact .inr ⟨hp, .inr hm⟩
      · cases h
      · exact .inr ⟨hp, .inr hm⟩
    · rintro (⟨hl, _, _, he, hs⟩ | ⟨hp, hm⟩)
      · obtain ⟨rfl, _⟩ := List.cons.inj he
        exact .inl ⟨hs, hl⟩
      · refine .inr ⟨hp, ?_⟩
        by_cases hk : Locks cfg env entry curHv s v
        · exact .inl ⟨hk, hm.imp (fun h => ⟨rfl, h.2⟩) id⟩
        · exact .inr ⟨hk, .inr (hm.resolve_left fun h => hk h.1)⟩

/-! ## One item -/

/-- The locks between two items, as long as no lock was given back twice. -/
structure ItemLocks.Ready (entry : List Nat) (l : ItemLocks) : Prop where
  idle : l.Idle entry
  own : ReleasesOwn l.ops
  none : ownLocks l.ops = []

namespace ItemLocks

variable {l : ItemLocks}

theorem ready_start (entry : List Nat) : Ready entry ⟨none, entry, []⟩ :=
  ⟨idle_start entry, releasesOwn_nil, rfl⟩

theorem Ready.kept (h : l.Ready entry) : LocksKept entry l := ⟨h.own, h.idle.held⟩

theorem Ready.skip (h : l.Ready entry) : Ready entry { l with holdLock := Option.none } :=
  ⟨h.idle.skip, h.own, h.none⟩

theorem unlock_of_none (h : l.holdLock = Option.none) : l.itemTrylockUnlock = l := by
  rw [itemTrylockUnlock, h]

theorem unlock_of_some {lock : Nat} (h : l.holdLock = some lock) :
    l.itemTrylockUnlock.ops = l.ops ++ [.release lock] := by
  rw [itemTrylockUnlock, h]

theorem Ready.visited (h : l.Ready entry) {tries : Nat} {hv : UInt32} (hf : lockFree env entry s tries hv) :
    (l.itemTrylock env s tries hv).itemTrylockUnlock.Ready entry := by
  refine ⟨h.idle.visited hf, ?_, ?_⟩
  · rw [h.idle.visit hf]
    change ReleasesOwn (l.ops ++ [_, _])
    rw [← List.singleton_append, ← List.append_assoc, releasesOwn_concat, releasesOwn_concat]
    refine ⟨⟨h.own, nofun⟩, fun lock he => ?_⟩
    rw [ownLocks_append, h.none]
    cases he
    exact List.mem_singleton_self _
  · rw [h.idle.visit hf]
    change ownLocks (l.ops ++ [_, _]) = []
    rw [ownLocks_append, h.none]
    simp [LockOp.apply]

/-- A handle that is still set belongs to a lock that was given back. -/
theorem Ready.stale (h : l.Ready entry) {lock : Nat} (hl : l.holdLock = some lock) :
    ¬ReleasesOwn l.itemTrylockUnlock.ops := by
  rw [unlock_of_some hl, releasesOwn_concat, h.none]
  intro hr
  exact absurd (hr.2 lock rfl) List.not_mem_nil

theorem unlock_holdLock (l : ItemLocks) : l.itemTrylockUnlock.holdLock = l.holdLock := by
  unfold itemTrylockUnlock
  split <;> rfl

theorem trylock_ops (l : ItemLocks) (env : LockEnv) (s : Store) (tries : Nat) (hv : UInt32) :
    ∃ more, (l.itemTrylock env s tries hv).ops = l.ops ++ more := by
  unfold itemTrylock
  dsimp only
  split
  · exact ⟨[], by simp⟩
  · exact ⟨_, rfl⟩

theorem unlock_ops (l : ItemLocks) : ∃ more, l.itemTrylockUnlock.ops = l.ops ++ more := by
  cases hl : l.holdLock with
  | none => exact ⟨[], by simp [unlock_of_none hl]⟩
  | some lock => exact ⟨_, unlock_of_some hl⟩

end ItemLocks

namespace Allocating

theorem look_locks (cfg : Settings) (env : LockEnv) (ntotal : Nat) (id : SlabId) (search : Ptr) (hv : UInt32) (a : Allocating) :
    (look cfg env ntotal id search hv a).1.locks = a.locks.itemTrylockUnlock := by
  unfold look
  dsimp only
  split <;> rfl

/-- What was done to the locks stays done. -/
theorem walk_ops (ntotal : Nat) (id : SlabId) (tries : Nat) (search : Option Ptr) (a : Allocating) :
    ∃ more, (walk cfg env ntotal id curHv tries search a).1.locks.ops = a.locks.ops ++ more := by
  induction tries generalizing a search with
  | zero => exact ⟨[], by simp [walk]⟩
  | succ tries ih =>
    cases search with
    | none => exact ⟨[], by simp [walk]⟩
    | some search =>
      simp only [walk]
      generalize cfg.hash (a.memory.store.key search) = hv
      obtain ⟨m1, h1⟩ : ∃ more, (if hv ≠ curHv then a.locks.itemTrylock env a.memory.store (tries + 1) hv
          else a.locks).ops = a.locks.ops ++ more := by
        split
        · exact a.locks.trylock_ops env a.memory.store (tries + 1) hv
        · exact ⟨[], by simp⟩
      generalize (if hv ≠ curHv then a.locks.itemTrylock env a.memory.store (tries + 1) hv
          else a.locks) = l' at *
      split
      · obtain ⟨m2, h2⟩ := ih (a.memory.store.mem search).prev ⟨a.memory, l', a.repaired⟩
        exact ⟨m1 ++ m2, by rw [h2, h1, List.append_assoc]⟩
      · obtain ⟨m2, h2⟩ := l'.unlock_ops
        have hlook := look_locks cfg env ntotal id search hv ⟨a.memory, l', a.repaired⟩
        generalize look cfg env ntotal id search hv ⟨a.memory, l', a.repaired⟩ = r at *
        obtain ⟨a', r⟩ := r
        dsimp only at hlook
        cases r with
        | none =>
          obtain ⟨m3, h3⟩ := ih (a'.memory.store.mem search).prev a'
          exact ⟨m1 ++ (m2 ++ m3), by rw [h3, hlook, h2, h1]; simp⟩
        | some r => exact ⟨m1 ++ m2, by rw [hlook, h2, h1, List.append_assoc]⟩

end Allocating

/-! ## The walk -/

namespace Allocating

variable {ntotal : Nat} {id : SlabId} {head tail : Option Ptr} {l₁ l₂ : List Ptr} {a : Allocating}

/-- The tail of a queue: items that are linked, in a class of their own. -/
structure TailOf (cfg : Settings) (s : Store) (id : SlabId) (head tail : Option Ptr) (l₁ l₂ : List Ptr) : Prop where
  list : DList (fun p => (s.mem p).next) (fun p => (s.mem p).prev) head tail (l₁ ++ l₂)
  linked : ∀ p ∈ l₁, (s.mem p).linked = true ∧ (s.mem p).slabsClsid = id
  cls : 1 ≤ id.val ∧ id.val ≤ cfg.slabclass.sizes.length

/-- The items ahead of the walk are as they were when it started. -/
structure Ahead (s t : Store) (l : List Ptr) : Prop where
  mem : ∀ p ∈ l, t.mem p = s.mem p
  hashpower : t.assoc.hashpower = s.assoc.hashpower
  time : t.currentTime = s.currentTime

theorem TailOf.back {l₀ : List Ptr} {p : Ptr} (h : TailOf cfg s id head tail (l₀ ++ [p]) l₂) :
    TailOf cfg s id head tail l₀ (p :: l₂) ∧ (s.mem p).prev = l₀.getLast? ∧ p ∉ l₀ := by
  have hlist := h.list
  rw [List.append_assoc, List.singleton_append] at hlist
  refine ⟨⟨hlist, fun q hq => h.linked q (by simp [hq]), h.cls⟩, hlist.links.2, fun hp => ?_⟩
  exact (List.nodup_append.mp hlist.nodup).2.2 p hp p (by simp) rfl

/-- Behind an item that was looked at, if the walk goes on, the items ahead are the same. -/
theorem look_kept {l₀ : List Ptr} {p : Ptr} {tries : Nat} {hv : UInt32}
    (hq : TailOf cfg s id head tail (l₀ ++ [p]) l₂) (ha : Ahead s a.memory.store (l₀ ++ [p]))
    (hr : a.locks.itemTrylockUnlock.Ready entry)
    (ih : ∀ a : Allocating, a.locks.Ready entry → Ahead s a.memory.store l₀ →
      (LocksKept entry (walk cfg env ntotal id curHv tries l₀.getLast? a).1.locks ↔
        ¬HandleMet cfg env entry curHv s a.locks.holdLock.isSome (visits tries l₀.reverse))) :
    LocksKept entry (match look cfg env ntotal id p hv a with
      | (a, none) => walk cfg env ntotal id curHv tries (a.memory.store.mem p).prev a
      | (a, some r) => (a, r)).1.locks ↔
    ¬(BusyItem cfg s (tries + 1, p) ∧
      HandleMet cfg env entry curHv s a.locks.holdLock.isSome (visits tries l₀.reverse)) := by
  obtain ⟨_, hprev, hout⟩ := hq.back
  have hp := ha.mem p (by simp)
  have hcount : ((refcountIncr cfg a.memory.store p).mem p).refcount = ((refcountIncr cfg s p).mem p).refcount := by
    rw [refcountIncr, refcountIncr, modify_mem_self, modify_mem_self, hp]
  by_cases h2 : ((refcountIncr cfg a.memory.store p).mem p).refcount = 2
  · rw [look_free h2]
    exact iff_of_true hr.kept fun hb => hb.1.1 (hcount ▸ h2)
  · obtain ⟨m, repaired, he, hm⟩ := @look_busy cfg env ntotal id p hv a h2
    rw [he]
    dsimp only
    have hpass : ∀ q, q ≠ p → (refcountDecr cfg (refcountIncr cfg a.memory.store p) p).mem q = a.memory.store.mem q :=
      fun q hqp => by rw [refcountDecr, modify_mem_of_ne hqp, refcountIncr, modify_mem_of_ne hqp]
    have hself : ∃ r, (refcountDecr cfg (refcountIncr cfg a.memory.store p) p).mem p =
        { s.mem p with refcount := r } := by
      rw [refcountDecr, modify_mem_self, refcountIncr, modify_mem_self, hp]
      exact ⟨_, rfl⟩
    generalize hs : refcountDecr cfg (refcountIncr cfg a.memory.store p) p = t at *
    have htime : t.currentTime = s.currentTime := by rw [← hs]; exact ha.time
    have hpower : t.assoc.hashpower = s.assoc.hashpower := by rw [← hs]; exact ha.hashpower
    obtain ⟨r, hself⟩ := hself
    rw [hself, ha.time] at hm
    by_cases ho : (s.mem p).time + TAIL_REPAIR_TIME < s.currentTime
    · -- the links of a repaired item lead nowhere
      rw [if_pos ho] at hm
      obtain ⟨hl, hc⟩ := hq.linked p (by simp)
      have hnone : (m.store.mem p).prev = none := by
        rw [hm]
        exact prev_tailRepair (by rw [hself]; exact hl) (by rw [hself, hc]; exact hq.cls.1)
          (by rw [hself, hc]; exact hq.cls.2) _
      rw [hnone, walk_none]
      exact iff_of_true hr.kept fun hb => hb.1.2 ho
    · rw [if_neg ho] at hm
      have hb : BusyItem cfg s (tries + 1, p) := ⟨hcount ▸ h2, ho⟩
      have hback : (m.store.mem p).prev = l₀.getLast? := by
        rw [hm, hself]
        exact hprev
      rw [hback, ih ⟨m, a.locks.itemTrylockUnlock, repaired⟩ hr, and_iff_right hb, ItemLocks.unlock_holdLock]
      refine ⟨fun q hq => ?_, by rw [hm]; exact hpower, by rw [hm]; exact htime⟩
      rw [hm, hpass q fun he => hout (he ▸ hq)]
      exact ha.mem q (by simp [hq])

/-- The walk gives back only its own locks unless it meets an item of the caller's hash
value while the handle is set. -/
theorem walk_kept (tries : Nat) (hq : TailOf cfg s id head tail l₁ l₂) (ha : Ahead s a.memory.store l₁)
    (hr : a.locks.Ready entry) :
    LocksKept entry (walk cfg env ntotal id curHv tries l₁.getLast? a).1.locks ↔
      ¬HandleMet cfg env entry curHv s a.locks.holdLock.isSome (visits tries l₁.reverse) := by
  induction tries generalizing l₁ l₂ a with
  | zero => exact iff_of_true hr.kept (by simp [visits, HandleMet])
  | succ tries ih =>
    rcases List.eq_nil_or_concat l₁ with rfl | ⟨l₀, p, rfl⟩
    · exact iff_of_true hr.kept (by simp [visits, HandleMet])
    · rw [List.concat_eq_append] at *
      obtain ⟨hback, hprev, _⟩ := hq.back
      have hp := ha.mem p (by simp)
      have ha' : Ahead s a.memory.store l₀ := ⟨fun q hq => ha.mem q (by simp [hq]), ha.hashpower, ha.time⟩
      have hfree : ∀ hv, lockFree env entry a.memory.store (tries + 1) hv ↔ lockFree env entry s (tries + 1) hv :=
        fun hv => lockFree_congr ha.hashpower
      have hkey : a.memory.store.key p = s.key p := by rw [Store.key, hp, Store.key]
      have hon : ∀ l', l'.itemTrylockUnlock.Ready entry → (LocksKept entry (match look cfg env ntotal id p
          (cfg.hash (s.key p)) ⟨a.memory, l', a.repaired⟩ with
            | (a, none) => walk cfg env ntotal id curHv tries (a.memory.store.mem p).prev a
            | (a, some r) => (a, r)).1.locks ↔ ¬(BusyItem cfg s (tries + 1, p) ∧
          HandleMet cfg env entry curHv s l'.holdLock.isSome (visits tries l₀.reverse))) := fun l' hl' =>
        look_kept (a := ⟨a.memory, l', a.repaired⟩) hq ha hl' fun a hr ha => ih hback ha hr
      rw [List.getLast?_concat, List.reverse_append, List.reverse_singleton, List.singleton_append, visits, HandleMet]
      simp only [walk, hkey]
      by_cases hs : SameHash cfg curHv s (tries + 1, p)
      · -- no lock of its own
        have hcur : ¬cfg.hash (s.key p) ≠ curHv := not_not.mpr hs
        have hnot : ¬Locks cfg env entry curHv s (tries + 1, p) := fun h => h.1 hs
        have hpassed : PassedOver cfg env entry curHv s (tries + 1, p) ↔ BusyItem cfg s (tries + 1, p) :=
          ⟨fun h => h.resolve_left fun h => h.1 hs, .inr⟩
        rw [if_neg hcur, if_neg fun h => hcur h.1]
        cases hh : a.locks.holdLock with
        | none =>
          have hunlock := ItemLocks.unlock_of_none hh
          refine (hon a.locks (by rw [hunlock]; exact hr)).trans (not_congr ?_)
          rw [hh, hpassed]
          simp [hnot]
        | some lock =>
          -- the lock behind the handle is given back a second time
          refine iff_of_false (fun hk => ?_) (not_not.mpr (.inl ⟨hs, rfl⟩))
          have hlook := look_locks cfg env ntotal id p (cfg.hash (s.key p)) ⟨a.memory, a.locks, a.repaired⟩
          have hbad := hr.stale hh
          have hown := hk.own
          generalize look cfg env ntotal id p (cfg.hash (s.key p)) ⟨a.memory, a.locks, a.repaired⟩ = r at *
          obtain ⟨a', r⟩ := r
          dsimp only at hlook
          rw [← hlook] at hbad
          cases r with
          | some r => exact hbad hown
          | none =>
            obtain ⟨more, hmore⟩ := @walk_ops cfg env curHv ntotal id tries (a'.memory.store.mem p).prev a'
            rw [hmore] at hown
            exact hbad hown.of_append
      · have hcur : cfg.hash (s.key p) ≠ curHv := hs
        rw [if_pos hcur]
        by_cases hf : lockFree env entry s (tries + 1) (cfg.hash (s.key p))
        · have hlocks : Locks cfg env entry curHv s (tries + 1, p) := ⟨hs, hf⟩
          have hf' := (hfree _).mpr hf
          have hpassed : PassedOver cfg env entry curHv s (tries + 1, p) ↔ BusyItem cfg s (tries + 1, p) :=
            ⟨fun h => h.resolve_left fun h => h.2 hlocks, .inr⟩
          have hset := hr.idle.trylock_free hf'
          rw [if_neg fun h => by rw [hset] at h; cases h.2]
          refine (hon _ (hr.visited hf')).trans (not_congr ?_)
          rw [hset, hpassed]
          simp [hlocks, hs]
        · have hnot : ¬Locks cfg env entry curHv s (tries + 1, p) := fun h => hf h.2
          have hpassed : PassedOver cfg env entry curHv s (tries + 1, p) := .inl ⟨hs, hnot⟩
          rw [hr.idle.trylock_taken (mt (hfree _).mp hf), if_pos ⟨hcur, rfl⟩, hp, hprev,
            ih (a := ⟨a.memory, { a.locks with holdLock := none }, a.repaired⟩) hback ha' hr.skip]
          simp [hs, hnot, hpassed]

theorem chunk_locks (cfg : Settings) (env : LockEnv) (ntotal : Nat) (id : SlabId) (curHv : UInt32) (a : Allocating) :
    (chunk cfg env ntotal id curHv a).1.locks =
      (walk cfg env ntotal id curHv 5 (a.memory.store.tails id) a).1.locks := by
  unfold chunk
  split <;> simp_all

end Allocating

/-! ## Two busy items -/

/-- The keys `a` and `b` have the hash values 1 and 2. -/
def twoHashes : Settings := { oneClass with hash := fun key => if key = [97] then 1 else 2 }

@[irreducible]
def gotA : ItemsState :=
  let r := doItemAlloc twoHashes ⟨fun _ => true, some [4096, 5096]⟩ (storeInit 16) [97] 0 0 3 0
  ⟨r.1, giveRef (fun _ => 0) r.2⟩

@[irreducible]
def storedA : ItemsState := ⟨doItemLink twoHashes gotA.store 5096 (twoHashes.hash (gotA.store.key 5096)), gotA.held⟩

@[irreducible]
def gotB : ItemsState :=
  let r := doItemAlloc twoHashes ⟨fun _ => true, none⟩ storedA.store [98] 0 0 3 0
  ⟨r.1, giveRef storedA.held r.2⟩

/-- `a` and then `b` are stored, and clients still refer to both. -/
@[irreducible]
def storedAB : ItemsState := ⟨doItemLink twoHashes gotB.store 4096 (twoHashes.hash (gotB.store.key 4096)), gotB.held⟩

theorem storedAB_run : ∃ ops, Run (ItemsStep twoHashes) (itemsInit 16) ops storedAB := by
  have h1 : ItemsStep twoHashes (itemsInit 16) (.alloc ⟨fun _ => true, some [4096, 5096]⟩ [97] 0 0 3 0) gotA := by
    unfold gotA
    exact .alloc _ _ _ _ _ _ _ _ (by decide) (by simp [FreshPage, storeInit]) rfl
  have ha : 0 < gotA.held 5096 ∧ (gotA.store.mem 5096).linked = false ∧
      assocFind gotA.store.key gotA.store.assoc (gotA.store.key 5096) (twoHashes.hash (gotA.store.key 5096)) = none := by
    decide +kernel
  have h2 : ItemsStep twoHashes gotA (.link 5096) storedA := by
    unfold storedA
    exact .link _ _ _ ha.1 ha.2.1 ha.2.2 (.inl rfl)
  have h3 : ItemsStep twoHashes storedA (.alloc ⟨fun _ => true, none⟩ [98] 0 0 3 0) gotB := by
    unfold gotB
    exact .alloc _ _ _ _ _ _ _ _ (by decide) (by simp [FreshPage]) (by decide +kernel)
  have hb : 0 < gotB.held 4096 ∧ (gotB.store.mem 4096).linked = false ∧
      assocFind gotB.store.key gotB.store.assoc (gotB.store.key 4096) (twoHashes.hash (gotB.store.key 4096)) = none := by
    decide +kernel
  have h4 : ItemsStep twoHashes gotB (.link 4096) storedAB := by
    unfold storedAB
    exact .link _ _ _ hb.1 hb.2.1 hb.2.2 (.inl rfl)
  exact ⟨_, .cons h1 (.cons h2 (.cons h3 (.single h4)))⟩

/-- The memory in that state. -/
def memoryAB : ItemMemory :=
  ⟨storedAB.store, Function.update (fun _ => []) 1 [[4096, 5096]], Function.update (fun _ => 0) 1 132⟩

theorem memoryAB_consistent : ∃ lru stored, ItemsConsistent twoHashes memoryAB.store lru stored := by
  obtain ⟨ops, hr⟩ := storedAB_run
  have h : StoreOk twoHashes storedAB.store storedAB.held :=
    hr.invariant (I := fun s => StoreOk twoHashes s.store s.held) (fun _ _ _ hi hs => hs.keeps hi)
      (storeOk_init twoHashes 16)
  obtain ⟨live, lru, h⟩ := h
  exact ⟨lru, live, h.consistent⟩

/-- Another thread takes the lock of `a` as soon as it is given back. -/
def lockOfA : LockEnv := ⟨4, fun tries lock => decide (tries ≤ 4) && lock == 1, none⟩

/-! ## Every allocation -/

/-- Whatever the tail of the queue, the locks held and the answers of `item_trylock`: an
allocation releases only its own locks unless, among the five last items of the queue, it
locks one and passes it over, and the next one has the hash value of the caller. -/
theorem item_locks_kept_iff {m : ItemMemory} {lru : SlabId → List Ptr} {stored : List Ptr}
    (h : ItemsConsistent cfg m.store lru stored) (key : Bytes) (flags : Int) (exptime : UInt32) (nbytes : Int) :
    LocksKept entry (m.doItemAlloc cfg env entry key flags exptime nbytes curHv).1.locks ↔
      slabsClsid cfg.slabclass (requestSize cfg key.length flags nbytes) = 0 ∨
      ¬StaleHandle cfg env entry curHv m.store
        (visits 5 (lru (slabsClsid cfg.slabclass (requestSize cfg key.length flags nbytes))).reverse) := by
  unfold ItemMemory.doItemAlloc
  generalize requestSize cfg key.length flags nbytes = ntotal
  dsimp only
  by_cases h0 : slabsClsid cfg.slabclass ntotal = 0
  · rw [if_pos h0]
    exact iff_of_true (ItemLocks.ready_start entry).kept (.inl h0)
  · have hid := slabsClsid_range h0
    rw [if_neg h0, or_iff_right h0]
    generalize slabsClsid cfg.slabclass ntotal = id at *
    have hchunk := Allocating.chunk_locks cfg env ntotal id curHv ⟨m, ⟨none, entry, []⟩, []⟩
    generalize Allocating.chunk cfg env ntotal id curHv ⟨m, ⟨none, entry, []⟩, []⟩ = r at *
    obtain ⟨a, it⟩ := r
    suffices LocksKept entry a.locks ↔ ¬StaleHandle cfg env entry curHv m.store (visits 5 (lru id).reverse) by
      cases it <;> exact this
    have hlist := h.links id
    have hq : Allocating.TailOf cfg m.store id (m.store.heads id) (m.store.tails id) (lru id) [] :=
      ⟨by rw [List.append_nil]; exact hlist, h.only id, hid⟩
    dsimp only at hchunk
    rw [hchunk, hlist.tail_eq, Allocating.walk_kept 5 hq ⟨fun _ _ => rfl, rfl, rfl⟩ (ItemLocks.ready_start entry),
      handleMet_iff]
    simp

/-- An allocation for another hash value at that tail gives back what it takes. -/
theorem item_locks_kept_iff_apart :
    LocksKept [] (memoryAB.doItemAlloc twoHashes lockOfA [] [99] 0 0 4 3).1.locks := by
  obtain ⟨lru, stored, h⟩ := memoryAB_consistent
  refine (item_locks_kept_iff h _ _ _ _).mpr (.inr ?_)
  rintro ⟨_, _, same, _, _, _, _, hs⟩
  have hhash : twoHashes.hash (memoryAB.store.key same.2) = 1 ∨ twoHashes.hash (memoryAB.store.key same.2) = 2 := by
    simp only [twoHashes]
    split
    · exact .inl rfl
    · exact .inr rfl
  rcases hhash with hh | hh <;> rw [SameHash, hh] at hs <;> exact absurd hs (by decide)

/-- With an item at the tail that is busy and one of the hash value of the caller before it,
the lock of the first is given back twice, the second time while another thread has it. -/
theorem second_release : (∃ ops, Run (ItemsStep twoHashes) (itemsInit 16) ops storedAB) ∧
    memoryAB.store = storedAB.store ∧
    (memoryAB.doItemAlloc twoHashes lockOfA [2] [98] 0 0 4 2).1.locks.ops =
      [.acquire 1, .release 1, .release 1] ∧
    lockOfA.others 4 1 = true ∧
    ¬LocksKept [2] (memoryAB.doItemAlloc twoHashes lockOfA [2] [98] 0 0 4 2).1.locks := by
  have hops : (memoryAB.doItemAlloc twoHashes lockOfA [2] [98] 0 0 4 2).1.locks.ops =
      [.acquire 1, .release 1, .release 1] := by decide +kernel
  refine ⟨storedAB_run, rfl, hops, rfl, fun hk => ?_⟩
  exact absurd (hk.own [.acquire 1, .release 1] 1 [] hops) (by decide)

end RamCube
