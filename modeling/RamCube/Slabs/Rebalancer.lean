import RamCube.Slabs.Reassign
import RamCube.Store.SlabLists

/-! # The page mover (slabs.c)

`slab_rebalance_thread` waits until a move is asked for, and then clears the page and gives it
to its new class, some chunks at a time. It has `slabs_rebalance_lock` all the while, except
where it waits for the condition `slab_rebalance_cond`; who asks for a move has the lock too.
Commands and allocations come between any two parts of a move. -/
namespace RamCube

variable {cfg : Settings} {τ : Type} {k : Nat}

/-- Who has `slabs_rebalance_lock`: the page mover, or a thread that asks for a move or keeps the
mover from going on (`slabs_rebalancer_pause`). -/
inductive LockUser (τ : Type) where
  | mover
  | caller (t : τ)

/-- Where `slab_rebalance_thread` is. -/
inductive MoverPc where
  | lock
  /-- at the top of the loop -/
  | loop
  /-- behind the first `if` of the loop -/
  | testDone
  /-- at the last `if` of the loop -/
  | testSignal
  /-- in `pthread_cond_wait` -/
  | waiting
  /-- woken there, without the lock yet -/
  | woken
  /-- it has left the loop, and still has the lock -/
  | ended
deriving DecidableEq

/-- `pthread_cond_signal(&slab_rebalance_cond)`: a signal that nobody waits for is lost. -/
def MoverPc.signal : MoverPc → MoverPc
  | .waiting => .woken
  | pc => pc

/-- Between the two calls of `mutex_lock` and `pthread_cond_wait`, or behind the loop. -/
def MoverPc.Locked : MoverPc → Prop
  | .loop | .testDone | .testSignal | .ended => True
  | _ => False

structure MoverState (τ : Type) where
  run : MemoryState
  statics : ReassignStatics
  owner : Option (LockUser τ)
  pc : MoverPc
  /-- `do_run_slab_rebalance_thread` -/
  doRun : Bool
  /-- the classes of the calls of `slabs_reassign` that were answered `REASSIGN_OK` -/
  accepted : List (Int × Int)
  /-- the classes that `slab_rebalance_start` was called for, and whether it started a move -/
  begun : List ((Int × Int) × Bool)
  /-- the classes of the moves that `slab_rebalance_finish` has ended -/
  moved : List (Int × Int)

/-- After `start_slab_maintenance_thread`. -/
def moverInit (τ : Type) (hashpower : Nat) : MoverState τ where
  run := memoryInit hashpower
  statics := ⟨0, 0, 0, POWER_SMALLEST - 1⟩
  owner := none
  pc := .lock
  doRun := true
  accepted := []
  begun := []
  moved := []

/-- The class of an index into `slabclass`. -/
def classId (c : Int) : Option SlabId := if h : 0 ≤ c ∧ c.toNat < LARGEST_ID then some ⟨c.toNat, h.2⟩ else none

/-- The allocator counts the pages that the memory of items has. -/
structure PagesOf (cfg : Settings) (m : ItemMemory) (slabs : Slabs) : Prop where
  powerLargest : slabs.powerLargest = cfg.slabclass.sizes.length
  slabs : ∀ c : SlabId, (slabs.slabclass c).slabs.toNat = (m.slabList c).length

namespace MoverState

variable (cfg : Settings) (s : MoverState τ)

/-- `slab_rebal.s_clsid` and `slab_rebal.d_clsid` -/
def classes : Int × Int := (s.statics.sClsid, s.statics.dClsid)

/-- `slabs_reassign` by a thread that has the lock. -/
def reassign (slabs : Slabs) (src dst : Int) : MoverState τ :=
  let answer := slabs.doSlabsReassign s.statics src dst
  if answer.1 = .OK then
    { s with
      statics := answer.2
      pc := s.pc.signal
      accepted := s.accepted ++ [(answer.2.sClsid, answer.2.dClsid)] }
  else { s with statics := answer.2 }

/-- `slab_rebalance_start` for the classes that were asked for. -/
def rebalanceStart (grown : Bool) : Option (ItemMemory × Rebalance) :=
  (classId s.statics.sClsid).bind fun src =>
    (classId s.statics.dClsid).bind fun dst => s.run.memory.slabRebalanceStart cfg src dst grown

/-- The loop of `slab_rebalance_thread` to the end of its first `if`. -/
def loop (grown : Bool) (frees : List Bool) : MoverState τ :=
  if s.doRun = false then { s with pc := .ended }
  else if s.statics.slabRebalanceSignal = 1 then
    match s.rebalanceStart cfg grown with
    | none =>
      { s with
        statics := { s.statics with slabRebalanceSignal := 0 }
        pc := .testDone
        begun := s.begun ++ [(s.classes, false)] }
    | some (m, r) =>
      { s with
        run := { s.run with memory := m, rebal := some r }
        statics := { s.statics with slabRebalanceSignal := 2 }
        pc := .testDone
        begun := s.begun ++ [(s.classes, true)] }
  else if s.statics.slabRebalanceSignal ≠ 0 then
    match s.run.rebal with
    | none => { s with pc := .testDone }
    | some r =>
      let mr := s.run.memory.slabRebalanceMove cfg r frees
      { s with run := { s.run with memory := mr.1, rebal := some mr.2 }, pc := .testDone }
  else { s with pc := .testDone }

/-- `if (slab_rebal.done)`, with the chunks that the page is split into. -/
def testDone (chunks : List Ptr) : MoverState τ :=
  match s.run.rebal with
  | none => { s with pc := .testSignal }
  | some r =>
    if r.done then
      { s with
        run := ⟨s.run.memory.slabRebalanceFinish r chunks, s.run.held, none⟩
        statics := { s.statics with slabRebalanceSignal := 0, sClsid := 0, dClsid := 0 }
        pc := .testSignal
        moved := s.moved ++ [s.classes] }
    else { s with pc := .testSignal }

/-- The loop ends with a wait if there is nothing to do. -/
def testSignal : MoverState τ :=
  if s.statics.slabRebalanceSignal = 0 then { s with owner := none, pc := .waiting } else { s with pc := .loop }

end MoverState

inductive MoverOp (τ : Type) where
  /-- a command or an allocation -/
  | memory (op : MemoryOp)
  | enter (t : τ)
  | reassign (t : τ) (slabs : Slabs) (src dst : Int)
  | leave (t : τ)
  | lock
  | loop (grown : Bool) (frees : List Bool)
  | testDone (chunks : List Ptr)
  | testSignal
  /-- `pthread_cond_wait` may return without a signal -/
  | wake
  /-- `stop_slab_maintenance_thread` -/
  | stop

/-- Not a part of a move. -/
def MemoryOp.OfOthers : MemoryOp → Prop
  | .item _ => True
  | .allocate .. => True
  | _ => False

inductive MoverStep (cfg : Settings) : MoverState τ → MoverOp τ → MoverState τ → Prop where
  | memory (s : MoverState τ) {op : MemoryOp} {t : MemoryState} : MemoryStep cfg s.run op t → op.OfOthers →
      MoverStep cfg s (.memory op) { s with run := t }
  | enter (s : MoverState τ) (t : τ) : s.owner = none →
      MoverStep cfg s (.enter t) { s with owner := some (.caller t) }
  | reassign (s : MoverState τ) (t : τ) (slabs : Slabs) (src dst : Int) : s.owner = some (.caller t) →
      PagesOf cfg s.run.memory slabs → MoverStep cfg s (.reassign t slabs src dst) (s.reassign slabs src dst)
  | leave (s : MoverState τ) (t : τ) : s.owner = some (.caller t) →
      MoverStep cfg s (.leave t) { s with owner := none }
  | lock (s : MoverState τ) : s.pc = .lock ∨ s.pc = .woken → s.owner = none →
      MoverStep cfg s .lock { s with owner := some .mover, pc := .loop }
  | loop (s : MoverState τ) (grown : Bool) (frees : List Bool) : s.pc = .loop →
      MoverStep cfg s (.loop grown frees) (s.loop cfg grown frees)
  /-- what the page is split into has no chunk of another page -/
  | testDone (s : MoverState τ) (chunks : List Ptr) : s.pc = .testDone →
      (∀ r ∈ s.run.rebal, chunks.Nodup ∧ ∀ p ∈ chunks, p ∈ s.run.memory.store.carved → p ∈ r.page) →
      MoverStep cfg s (.testDone chunks) (s.testDone chunks)
  | testSignal (s : MoverState τ) : s.pc = .testSignal → MoverStep cfg s .testSignal s.testSignal
  | wake (s : MoverState τ) : s.pc = .waiting → MoverStep cfg s .wake { s with pc := .woken }
  | stop (s : MoverState τ) : MoverStep cfg s .stop { s with doRun := false }


/-! ## Requests -/

/-- A request that is refused leaves the move alone that may be running. -/
theorem requestMove_statics (slabs : Slabs) (r : ReassignStatics) (src dst : Int) :
    ((slabs.requestMove r src dst).1 ≠ .OK ∧ (slabs.requestMove r src dst).2 = r) ∨
      ((slabs.requestMove r src dst).1 = .OK ∧ (slabs.requestMove r src dst).2.slabRebalanceSignal = 1) := by
  unfold Slabs.requestMove
  split
  · exact .inl ⟨by simp, rfl⟩
  · split
    · exact .inl ⟨by simp, rfl⟩
    · exact .inr ⟨rfl, rfl⟩

theorem doSlabsReassign_statics (slabs : Slabs) (r : ReassignStatics) (src dst : Int) :
    ((slabs.doSlabsReassign r src dst).1 ≠ .OK ∧ ∃ cur, (slabs.doSlabsReassign r src dst).2 = { r with cur := cur }) ∨
      ((slabs.doSlabsReassign r src dst).1 = .OK ∧ r.slabRebalanceSignal = 0 ∧
        (slabs.doSlabsReassign r src dst).2.slabRebalanceSignal = 1) := by
  unfold Slabs.doSlabsReassign
  by_cases hidle : r.slabRebalanceSignal ≠ 0
  · rw [if_pos hidle]
    exact .inl ⟨by simp, r.cur, rfl⟩
  rw [if_neg hidle]
  by_cases hsame : src = dst
  · rw [if_pos hsame]
    exact .inl ⟨by simp, r.cur, rfl⟩
  rw [if_neg hsame]
  have h0 : r.slabRebalanceSignal = 0 := not_not.mp hidle
  by_cases hany : src = -1
  · rw [if_pos hany]
    dsimp only
    rcases requestMove_statics slabs { r with cur := (slabs.slabsReassignPickAny dst r.cur).cur }
      (slabs.slabsReassignPickAny dst r.cur).result dst with ⟨hno, he⟩ | ⟨hok, h1⟩
    · exact .inl ⟨hno, _, he⟩
    · exact .inr ⟨hok, h0, h1⟩
  · rw [if_neg hany]
    rcases requestMove_statics slabs r src dst with ⟨hno, he⟩ | ⟨hok, h1⟩
    · exact .inl ⟨hno, r.cur, he⟩
    · exact .inr ⟨hok, h0, h1⟩

/-- A move that `slab_rebalance_start` does not refuse. -/
structure Movable (cfg : Settings) (m : ItemMemory) (src dst : SlabId) : Prop where
  source : 1 ≤ src.val ∧ src.val ≤ cfg.slabclass.sizes.length
  target : 1 ≤ dst.val ∧ dst.val ≤ cfg.slabclass.sizes.length
  ne : src ≠ dst
  spare : 2 ≤ (m.slabList src).length

section

variable {m m' : ItemMemory} {src dst : SlabId} {r : Rebalance}

theorem Movable.mono (h : Movable cfg m src dst) (hle : (m.slabList src).length ≤ (m'.slabList src).length) :
    Movable cfg m' src dst :=
  ⟨h.source, h.target, h.ne, Nat.le_trans h.spare hle⟩

/-- Only `grow_slab_list` can keep such a move from starting. -/
theorem Movable.start (h : Movable cfg m src dst) (grown : Bool) :
    (m.slabRebalanceStart cfg src dst grown).isSome = grown := by
  obtain ⟨⟨hs1, hs2⟩, ⟨hd1, hd2⟩, hne, hspare⟩ := h
  unfold ItemMemory.slabRebalanceStart
  cases grown with
  | false => rw [if_pos (by simp), Option.isSome_none]
  | true =>
    have hgo : ¬(src.val < 1 ∨ cfg.slabclass.sizes.length < src.val ∨ dst.val < 1 ∨ cfg.slabclass.sizes.length < dst.val ∨
        src = dst ∨ true = false ∨ (m.slabList src).length < 2) := by
      rintro (h | h | h | h | h | h | h)
      · omega
      · omega
      · omega
      · omega
      · exact hne h
      · cases h
      · omega
    rw [if_neg hgo]
    rfl

theorem start_names {grown : Bool} (h : m.slabRebalanceStart cfg src dst grown = some (m', r)) :
    r.src = src ∧ r.dst = dst ∧ r.done = false := by
  unfold ItemMemory.slabRebalanceStart at h
  split at h
  · cases h
  · cases h
    exact ⟨rfl, rfl, rfl⟩

theorem classId_val (c : SlabId) : classId c.val = some c := by
  have h : 0 ≤ ((c.val : Nat) : Int) ∧ ((c.val : Nat) : Int).toNat < LARGEST_ID := ⟨Int.natCast_nonneg _, c.isLt⟩
  rw [classId, dif_pos h]
  rfl

theorem eq_of_classId {i : Int} {c : SlabId} (h : classId i = some c) : i = c.val := by
  unfold classId at h
  split at h
  · rename_i hi
    cases h
    exact (Int.toNat_of_nonneg hi.1).symm
  · cases h

/-- The chunks that a turn looks at are those of the page it was called for. -/
theorem moveTurn_names (m : ItemMemory) (r : Rebalance) (it : Ptr) (free : Bool) :
    (m.moveTurn cfg r it free).2.src = r.src ∧ (m.moveTurn cfg r it free).2.dst = r.dst := by
  unfold ItemMemory.moveTurn
  split <;> exact ⟨rfl, rfl⟩

theorem moveLoop_names (frees : List Bool) (m : ItemMemory) (r : Rebalance) :
    (ItemMemory.moveLoop cfg frees (m, r)).2.src = r.src ∧ (ItemMemory.moveLoop cfg frees (m, r)).2.dst = r.dst := by
  induction frees generalizing m r with
  | nil => exact ⟨rfl, rfl⟩
  | cons free frees ih =>
    simp only [ItemMemory.moveLoop]
    split
    · exact ⟨rfl, rfl⟩
    · rename_i it _
      obtain ⟨h1, h2⟩ := ih (m.moveTurn cfg r it free).1 (m.moveTurn cfg r it free).2
      obtain ⟨h3, h4⟩ := @moveTurn_names cfg m r it free
      exact ⟨h1.trans h3, h2.trans h4⟩

theorem slabRebalanceMove_names (m : ItemMemory) (r : Rebalance) (frees : List Bool) :
    (m.slabRebalanceMove cfg r frees).2.src = r.src ∧ (m.slabRebalanceMove cfg r frees).2.dst = r.dst := by
  have h := @moveLoop_names cfg frees m r
  unfold ItemMemory.slabRebalanceMove
  dsimp only
  split
  · split <;> exact h
  · exact h

end

/-! ## What every step keeps -/

namespace MoverState

variable (s : MoverState τ)

/-- The request that the mover has not looked at. -/
def asked : List (Int × Int) := if s.statics.slabRebalanceSignal = 1 then [s.classes] else []

/-- The move that is made. -/
def moving : List (Int × Int) := if s.statics.slabRebalanceSignal = 2 then [s.classes] else []

end MoverState

/-- Nothing happens to the memory, or one step of it. -/
def Advances (cfg : Settings) (u v : MemoryState) : Prop := v = u ∨ ∃ op, MemoryStep cfg u op v

theorem Advances.paged {u v : MemoryState} (h : Advances cfg u v) (hu : PagedOk cfg u) : PagedOk cfg v := by
  rcases h with rfl | ⟨op, hstep⟩
  · exact hu
  · exact hstep.keeps hu

structure MoverOk (cfg : Settings) (s : MoverState τ) : Prop where
  paged : PagedOk cfg s.run
  signal : s.statics.slabRebalanceSignal = 0 ∨ s.statics.slabRebalanceSignal = 1 ∨ s.statics.slabRebalanceSignal = 2
  movable : s.statics.slabRebalanceSignal = 1 → ∃ src dst : SlabId, s.classes = ((src.val : Int), (dst.val : Int)) ∧
    Movable cfg s.run.memory src dst
  idle : s.run.rebal = none ↔ s.statics.slabRebalanceSignal ≠ 2
  named : ∀ r ∈ s.run.rebal, s.classes = ((r.src.val : Int), (r.dst.val : Int))
  tested : ∀ r ∈ s.run.rebal, r.done = true → s.pc = .testDone
  awake : s.statics.slabRebalanceSignal ≠ 0 → s.pc ≠ .waiting
  owned : s.owner = some .mover ↔ s.pc.Locked
  order : s.accepted = s.begun.map Prod.fst ++ s.asked
  moves : (s.begun.filter Prod.snd).map Prod.fst = s.moved ++ s.moving

section

variable {s t : MoverState τ}

theorem moverOk_init : MoverOk cfg (moverInit τ k) where
  paged := pagedOk_init cfg k
  signal := .inl rfl
  movable := fun h => by cases h
  idle := by simp [moverInit, memoryInit]
  named := by simp [moverInit, memoryInit]
  tested := by simp [moverInit, memoryInit]
  awake := fun h => absurd rfl h
  owned := by simp [moverInit, MoverPc.Locked]
  order := rfl
  moves := rfl

/-- The threads that work on items let no page go and leave the move alone. -/
theorem others_keep {u v : MemoryState} {op : MemoryOp} (h : PagedOk cfg u) (hs : MemoryStep cfg u op v) (hop : op.OfOthers) :
    v.rebal = u.rebal ∧ ∀ c, (u.memory.slabList c).length ≤ (v.memory.slabList c).length := by
  cases op with
  | item op =>
    have hlists := (keepsLists_slabList h (show (MemoryOp.item op).KeepsLists from trivial) hs).1
    cases hs
    exact ⟨rfl, fun c => by rw [hlists]⟩
  | allocate env entry key flags exptime nbytes curHv =>
    obtain ⟨hnew, hrebal, _⟩ := newPage_allocate h hs
    refine ⟨hrebal, fun c => ?_⟩
    rcases hnew with he | ⟨page, _, _, he⟩
    · rw [he]
    · rw [he]
      by_cases hc : c = slabsClsid cfg.slabclass (requestSize cfg key.length flags nbytes)
      · rw [hc, Function.update_self, List.length_append]
        exact Nat.le_add_right _ _
      · rw [Function.update_of_ne hc]
  | startMove => exact hop.elim
  | move => exact hop.elim
  | finishMove => exact hop.elim

theorem MoverOk.memory (h : MoverOk cfg s) {op : MemoryOp} {u : MemoryState} (hs : MemoryStep cfg s.run op u)
    (hop : op.OfOthers) : MoverOk cfg { s with run := u } := by
  obtain ⟨hrebal, hlists⟩ := others_keep h.paged hs hop
  refine ⟨hs.keeps h.paged, h.signal, fun h1 => ?_, ?_, fun r hr => ?_, fun r hr => ?_, h.awake, h.owned, h.order, h.moves⟩
  · obtain ⟨src, dst, he, hm⟩ := h.movable h1
    exact ⟨src, dst, he, hm.mono (hlists src)⟩
  · rw [hrebal]
    exact h.idle
  · rw [hrebal] at hr
    exact h.named r hr
  · rw [hrebal] at hr
    exact h.tested r hr

theorem signal_locked (pc : MoverPc) : pc.signal.Locked ↔ pc.Locked := by
  cases pc <;> exact Iff.rfl

theorem signal_ne_waiting (pc : MoverPc) : pc.signal ≠ .waiting := by
  cases pc <;> simp [MoverPc.signal]

theorem MoverOk.reassign (h : MoverOk cfg s) {u : τ} {slabs : Slabs} (src dst : Int) (hown : s.owner = some (.caller u))
    (hpages : PagesOf cfg s.run.memory slabs) : MoverOk cfg (s.reassign slabs src dst) := by
  unfold MoverState.reassign
  dsimp only
  rcases doSlabsReassign_statics slabs s.statics src dst with ⟨hno, cur, he⟩ | ⟨hok, h0, h1⟩
  · rw [if_neg hno, he]
    exact ⟨h.paged, h.signal, h.movable, h.idle, h.named, h.tested, h.awake, h.owned, h.order, h.moves⟩
  · rw [if_pos hok]
    have hnone : s.run.rebal = none := h.idle.mpr (by rw [h0]; simp)
    have hfree : ¬s.pc.Locked := fun hl => by
      rw [h.owned.mpr hl] at hown
      cases hown
    obtain ⟨c, d, hdst, ⟨⟨hc1, hc2⟩, hne, hmore⟩, ⟨hd1, hd2⟩, hc, hd, -⟩ := Slabs.doSlabsReassign_ok hok
    generalize (slabs.doSlabsReassign s.statics src dst).2 = st at h1 hc hd ⊢
    have hfits := cfg.slabclass.fits
    rw [hpages.powerLargest] at hc2 hd2
    have hc200 : c < LARGEST_ID := Nat.lt_of_le_of_lt hc2 hfits
    have hd200 : d < LARGEST_ID := Nat.lt_of_le_of_lt hd2 hfits
    have hspare : 2 ≤ (s.run.memory.slabList ⟨c, hc200⟩).length := by
      rw [← hpages.slabs]
      exact UInt32.lt_iff_toNat_lt.mp hmore
    have hmovable : Movable cfg s.run.memory ⟨c, hc200⟩ ⟨d, hd200⟩ := by
      refine ⟨⟨hc1, hc2⟩, ⟨hd1, hd2⟩, fun he => hne ?_, hspare⟩
      rw [hdst]
      exact congrArg (fun i : SlabId => (i.val : Int)) he
    have horder := h.order
    have hmoves := h.moves
    rw [MoverState.asked, if_neg (by rw [h0]; simp), List.append_nil] at horder
    rw [MoverState.moving, if_neg (by rw [h0]; simp)] at hmoves
    refine ⟨h.paged, .inr (.inl h1), fun _ => ⟨⟨c, hc200⟩, ⟨d, hd200⟩, Prod.ext hc hd, hmovable⟩, ?_, fun r hr => ?_,
      fun r hr => ?_,
      fun _ => signal_ne_waiting s.pc, ?_, ?_, ?_⟩
    · dsimp only
      rw [hnone, h1]
      simp
    · rw [hnone] at hr
      cases hr
    · rw [hnone] at hr
      cases hr
    · rw [signal_locked]
      exact h.owned
    · rw [horder, MoverState.asked, if_pos h1]
      rfl
    · rw [hmoves, MoverState.moving, if_neg (by rw [h1]; simp)]

theorem MoverOk.loop (h : MoverOk cfg s) (hpc : s.pc = .loop) (grown : Bool) (frees : List Bool) :
    MoverOk cfg (s.loop cfg grown frees) ∧ Advances cfg s.run (s.loop cfg grown frees).run := by
  have hlock : s.owner = some .mover := h.owned.mpr (by rw [hpc]; trivial)
  have hundone : ∀ r ∈ s.run.rebal, r.done = false := by
    intro r hr
    cases hdone : r.done with
    | false => rfl
    | true =>
      have hat := h.tested r hr hdone
      rw [hpc] at hat
      cases hat
  unfold MoverState.loop
  by_cases hstop : s.doRun = false
  · rw [if_pos hstop]
    refine ⟨⟨h.paged, h.signal, h.movable, h.idle, h.named, fun r hr hdone => ?_, fun _ => by simp, ?_, h.order, h.moves⟩,
      .inl rfl⟩
    · rw [hundone r hr] at hdone
      cases hdone
    · exact ⟨fun _ => trivial, fun _ => hlock⟩
  rw [if_neg hstop]
  have hat : (some LockUser.mover : Option (LockUser τ)) = some .mover ↔ MoverPc.testDone.Locked :=
    ⟨fun _ => trivial, fun _ => rfl⟩
  by_cases h1 : s.statics.slabRebalanceSignal = 1
  · rw [if_pos h1]
    have hnone : s.run.rebal = none := h.idle.mpr (by rw [h1]; simp)
    have horder := h.order
    have hmoves := h.moves
    rw [MoverState.asked, if_pos h1] at horder
    rw [MoverState.moving, if_neg (by rw [h1]; simp), List.append_nil] at hmoves
    cases hstart : s.rebalanceStart cfg grown with
    | none =>
      refine ⟨⟨h.paged, .inl rfl, (fun h0 => by cases h0), ?_, h.named, fun _ _ _ => rfl, fun h0 => absurd rfl h0, ?_, ?_,
        ?_⟩, .inl rfl⟩
      · exact ⟨fun _ => by simp, fun _ => hnone⟩
      · rw [hlock]
        exact hat
      · simp [horder, MoverState.asked]
      · simp [hmoves, MoverState.moving]
    | some mr =>
      obtain ⟨m, r⟩ := mr
      obtain ⟨src, hsrc, hbind⟩ := Option.bind_eq_some_iff.mp hstart
      obtain ⟨dst, hdst, hgo⟩ := Option.bind_eq_some_iff.mp hbind
      obtain ⟨hr1, hr2, hr3⟩ := start_names hgo
      have hstep : MemoryStep cfg s.run (.startMove src dst grown) { s.run with memory := m, rebal := some r } := by
        have hs := @MemoryStep.startMove cfg s.run.memory s.run.held src dst grown m r hgo
        rw [← hnone] at hs
        exact hs
      refine ⟨⟨hstep.keeps h.paged, .inr (.inr rfl), (fun h0 => by cases h0), ?_, fun r' hr' => ?_, fun _ _ _ => rfl,
        fun _ => by simp, ?_, ?_, ?_⟩, .inr ⟨_, hstep⟩⟩
      · simp
      · cases hr'
        rw [hr1, hr2]
        exact Prod.ext (eq_of_classId hsrc) (eq_of_classId hdst)
      · rw [hlock]
        exact hat
      · simp [horder, MoverState.asked]
      · simp [hmoves, MoverState.moving, MoverState.classes]
  rw [if_neg h1]
  by_cases h0 : s.statics.slabRebalanceSignal ≠ 0
  · rw [if_pos h0]
    cases hr : s.run.rebal with
    | none =>
      refine ⟨⟨h.paged, h.signal, h.movable, h.idle, h.named, fun _ _ _ => rfl, fun _ => by simp, ?_, h.order, h.moves⟩, .inl rfl⟩
      rw [hlock]
      exact hat
    | some r =>
      have hstep : MemoryStep cfg s.run (.move frees) { s.run with
          memory := (s.run.memory.slabRebalanceMove cfg r frees).1
          rebal := some (s.run.memory.slabRebalanceMove cfg r frees).2 } := by
        have hs := @MemoryStep.move cfg s.run.memory s.run.held r frees (hundone r hr)
        rw [← hr] at hs
        exact hs
      obtain ⟨hn1, hn2⟩ := @slabRebalanceMove_names cfg s.run.memory r frees
      refine ⟨⟨hstep.keeps h.paged, h.signal, fun h1' => absurd h1' h1, ?_, fun r' hr' => ?_, fun _ _ _ => rfl,
        fun _ => by simp, ?_, h.order, h.moves⟩, .inr ⟨_, hstep⟩⟩
      · have hidle := h.idle
        rw [hr] at hidle
        simpa using hidle
      · cases hr'
        rw [hn1, hn2]
        exact h.named r hr
      · rw [hlock]
        exact hat
  · rw [if_neg h0]
    refine ⟨⟨h.paged, h.signal, h.movable, h.idle, h.named, fun _ _ _ => rfl, fun _ => by simp, ?_, h.order, h.moves⟩, .inl rfl⟩
    rw [hlock]
    exact hat

theorem MoverOk.testDone (h : MoverOk cfg s) (hpc : s.pc = .testDone) (chunks : List Ptr)
    (hchunks : ∀ r ∈ s.run.rebal, chunks.Nodup ∧ ∀ p ∈ chunks, p ∈ s.run.memory.store.carved → p ∈ r.page) :
    MoverOk cfg (s.testDone chunks) ∧ Advances cfg s.run (s.testDone chunks).run := by
  have hlock : s.owner = some .mover := h.owned.mpr (by rw [hpc]; trivial)
  have hat : s.owner = some .mover ↔ MoverPc.testSignal.Locked := ⟨fun _ => trivial, fun _ => hlock⟩
  unfold MoverState.testDone
  cases hr : s.run.rebal with
  | none =>
    refine ⟨⟨h.paged, h.signal, h.movable, h.idle, h.named, fun r hr' => ?_, fun _ => by simp, hat, h.order, h.moves⟩, .inl rfl⟩
    rw [hr] at hr'
    cases hr'
  | some r =>
    dsimp only
    by_cases hdone : r.done = true
    · rw [if_pos hdone]
      obtain ⟨hnd, hnew⟩ := hchunks r hr
      have hstep : MemoryStep cfg s.run (.finishMove chunks)
          ⟨s.run.memory.slabRebalanceFinish r chunks, s.run.held, none⟩ := by
        have hs := @MemoryStep.finishMove cfg s.run.memory s.run.held r chunks hdone hnd hnew
        rw [← hr] at hs
        exact hs
      have h2 : s.statics.slabRebalanceSignal = 2 := by
        by_contra hne
        rw [h.idle.mpr hne] at hr
        cases hr
      have horder := h.order
      have hmoves := h.moves
      rw [MoverState.asked, if_neg (by rw [h2]; simp)] at horder
      rw [MoverState.moving, if_pos h2] at hmoves
      refine ⟨⟨hstep.keeps h.paged, .inl rfl, (fun h1 => by cases h1), ?_, (fun r' hr' => by cases hr'),
        (fun r' hr' => by cases hr'), fun h0 => absurd rfl h0, hat, ?_, ?_⟩, .inr ⟨_, hstep⟩⟩
      · simp
      · simp [horder, MoverState.asked]
      · simp [hmoves, MoverState.moving]
    · rw [if_neg hdone]
      refine ⟨⟨h.paged, h.signal, h.movable, h.idle, h.named, fun r' hr' hd => ?_, fun _ => by simp, hat, h.order, h.moves⟩,
        .inl rfl⟩
      rw [hr] at hr'
      cases hr'
      exact absurd hd hdone

theorem MoverOk.testSignal (h : MoverOk cfg s) (hpc : s.pc = .testSignal) : MoverOk cfg s.testSignal := by
  have hlock : s.owner = some .mover := h.owned.mpr (by rw [hpc]; trivial)
  have htested : ∀ r ∈ s.run.rebal, r.done = true → False := by
    intro r hr hdone
    have hat := h.tested r hr hdone
    rw [hpc] at hat
    cases hat
  unfold MoverState.testSignal
  by_cases h0 : s.statics.slabRebalanceSignal = 0
  · rw [if_pos h0]
    refine ⟨h.paged, h.signal, h.movable, h.idle, h.named, fun r hr hd => (htested r hr hd).elim, fun hne => absurd h0 hne, ?_,
      h.order, h.moves⟩
    simp [MoverPc.Locked]
  · rw [if_neg h0]
    refine ⟨h.paged, h.signal, h.movable, h.idle, h.named, fun r hr hd => (htested r hr hd).elim, fun _ => by simp, ?_,
      h.order, h.moves⟩
    exact ⟨fun _ => trivial, fun _ => hlock⟩

theorem MoverStep.keeps {e : MoverOp τ} (h : MoverOk cfg s) (hs : MoverStep cfg s e t) :
    MoverOk cfg t ∧ Advances cfg s.run t.run := by
  cases hs with
  | memory hstep hop => exact ⟨h.memory hstep hop, .inr ⟨_, hstep⟩⟩
  | enter u hfree =>
    refine ⟨⟨h.paged, h.signal, h.movable, h.idle, h.named, h.tested, h.awake, ?_, h.order, h.moves⟩, .inl rfl⟩
    have howned := h.owned
    rw [hfree] at howned
    simpa using howned
  | reassign u slabs src dst hown hpages =>
    refine ⟨h.reassign src dst hown hpages, .inl ?_⟩
    unfold MoverState.reassign
    dsimp only
    split <;> rfl
  | leave u hown =>
    refine ⟨⟨h.paged, h.signal, h.movable, h.idle, h.named, h.tested, h.awake, ?_, h.order, h.moves⟩, .inl rfl⟩
    have howned := h.owned
    rw [hown] at howned
    simpa using howned
  | lock hpc hfree =>
    refine ⟨⟨h.paged, h.signal, h.movable, h.idle, h.named, fun r hr hd => ?_, fun _ => by simp, ?_, h.order, h.moves⟩, .inl rfl⟩
    · have hat := h.tested r hr hd
      rw [hat] at hpc
      simp at hpc
    · exact ⟨fun _ => trivial, fun _ => rfl⟩
  | loop grown frees hpc => exact h.loop hpc grown frees
  | testDone chunks hpc hchunks => exact h.testDone hpc chunks hchunks
  | testSignal hpc =>
    refine ⟨h.testSignal hpc, .inl ?_⟩
    unfold MoverState.testSignal
    split <;> rfl
  | wake hpc =>
    refine ⟨⟨h.paged, h.signal, h.movable, h.idle, h.named, fun r hr hd => ?_, fun _ => by simp, ?_, h.order, h.moves⟩, .inl rfl⟩
    · have hat := h.tested r hr hd
      rw [hat] at hpc
      cases hpc
    · have howned := h.owned
      rw [hpc] at howned
      exact howned
  | stop => exact ⟨⟨h.paged, h.signal, h.movable, h.idle, h.named, h.tested, h.awake, h.owned, h.order, h.moves⟩, .inl rfl⟩

theorem MoverStep.accepted_le {e : MoverOp τ} (hs : MoverStep cfg s e t) : s.accepted.length ≤ t.accepted.length := by
  cases hs with
  | memory => exact Nat.le_refl _
  | enter => exact Nat.le_refl _
  | reassign u slabs src dst =>
    unfold MoverState.reassign
    dsimp only
    split
    · rw [List.length_append]
      exact Nat.le_add_right _ _
    · exact Nat.le_refl _
  | leave => exact Nat.le_refl _
  | lock => exact Nat.le_refl _
  | loop =>
    unfold MoverState.loop
    split
    · exact Nat.le_refl _
    split
    · split <;> exact Nat.le_refl _
    split
    · split <;> exact Nat.le_refl _
    · exact Nat.le_refl _
  | testDone =>
    unfold MoverState.testDone
    split
    · exact Nat.le_refl _
    · split <;> exact Nat.le_refl _
  | testSignal =>
    unfold MoverState.testSignal
    split <;> exact Nat.le_refl _
  | wake => exact Nat.le_refl _
  | stop => exact Nat.le_refl _

/-- Only a request that is accepted, or a wake-up without a signal, ends the wait. -/
theorem MoverStep.sleeps {e : MoverOp τ} (hs : MoverStep cfg s e t) (hpc : s.pc = .waiting) (hwake : e ≠ .wake) :
    t.pc = .waiting ∨ s.accepted.length < t.accepted.length := by
  cases hs with
  | memory => exact .inl hpc
  | enter => exact .inl hpc
  | reassign u slabs src dst =>
    unfold MoverState.reassign
    dsimp only
    split
    · refine .inr ?_
      rw [List.length_append]
      exact Nat.lt_succ_self _
    · exact .inl hpc
  | leave => exact .inl hpc
  | lock hat =>
    rw [hpc] at hat
    simp at hat
  | loop _ _ hat =>
    rw [hpc] at hat
    cases hat
  | testDone _ hat =>
    rw [hpc] at hat
    cases hat
  | testSignal hat =>
    rw [hpc] at hat
    cases hat
  | wake => exact absurd rfl hwake
  | stop => exact .inl hpc

theorem sleeps_of_run {es : List (MoverOp τ)} (hr : Run (MoverStep cfg) s es t) (hpc : s.pc = .waiting)
    (hwake : MoverOp.wake ∉ es) : t.pc = .waiting ∨ s.accepted.length < t.accepted.length := by
  induction hr with
  | nil => exact .inl hpc
  | cons hs hr ih =>
    rw [List.mem_cons, not_or] at hwake
    rcases hs.sleeps hpc (fun he => hwake.1 he.symm) with hstill | hmore
    · refine (ih hstill hwake.2).imp_right fun hlt => Nat.lt_of_le_of_lt hs.accepted_le hlt
    · have hle := hr.invariant (I := fun u => _ ≤ u.accepted.length)
        (fun _ _ _ hi hs => Nat.le_trans hi hs.accepted_le) (Nat.le_refl _)
      exact .inr (Nat.lt_of_lt_of_le hmore hle)

end

/-! ## Runs -/

/-- What the mover does by itself. -/
def MoverOp.OfMover : MoverOp τ → Prop
  | .lock | .loop .. | .testDone _ | .testSignal => True
  | _ => False

/-- The requests are taken up in their order, each once, and none while the last one is worked
on; the memory sees a run of page moves among the commands. -/
structure RequestsServed (cfg : Settings) (k : Nat) (s : MoverState τ) : Prop where
  order : s.accepted = s.begun.map Prod.fst ++ s.asked
  moves : (s.begun.filter Prod.snd).map Prod.fst = s.moved ++ s.moving
  page : ∀ r ∈ s.run.rebal, s.moving = [((r.src.val : Int), (r.dst.val : Int))]
  memory : ∃ ops, Run (MemoryStep cfg) (memoryInit k) ops s.run
  /-- only `grow_slab_list` can keep a move from starting that was asked for -/
  starts : s.statics.slabRebalanceSignal = 1 → s.doRun = true → ∀ (grown : Bool) (frees : List Bool) (t : MoverState τ),
    MoverStep cfg s (.loop grown frees) t → t.run.rebal.isSome = grown
  /-- while there is something to do the mover does not wait for its condition -/
  goesOn : s.statics.slabRebalanceSignal ≠ 0 → s.pc ≠ .ended →
    (∃ u, s.owner = some (.caller u)) ∨ ∃ e t, MoverOp.OfMover e ∧ MoverStep cfg s e t
  /-- `stop_slab_maintenance_thread` does not wake it -/
  sleeps : s.pc = .waiting → ∀ es t, Run (MoverStep cfg) s es t → MoverOp.wake ∉ es → t.accepted = s.accepted →
    t.pc = .waiting

section

variable {s : MoverState τ}

theorem MoverOk.starts (h : MoverOk cfg s) (h1 : s.statics.slabRebalanceSignal = 1) (hrun : s.doRun = true) (grown : Bool)
    (frees : List Bool) : (s.loop cfg grown frees).run.rebal.isSome = grown := by
  obtain ⟨src, dst, hclasses, hm⟩ := h.movable h1
  obtain ⟨hsrc, hdst⟩ := Prod.ext_iff.mp hclasses
  have hsrc : s.statics.sClsid = src.val := hsrc
  have hdst : s.statics.dClsid = dst.val := hdst
  have hnone : s.run.rebal = none := h.idle.mpr (by rw [h1]; simp)
  have hstart : s.rebalanceStart cfg grown = s.run.memory.slabRebalanceStart cfg src dst grown := by
    rw [MoverState.rebalanceStart, hsrc, hdst, classId_val, classId_val]
    rfl
  have hgo := hm.start grown
  rw [← hstart] at hgo
  rw [MoverState.loop, if_neg (by rw [hrun]; simp), if_pos h1]
  cases hs : s.rebalanceStart cfg grown with
  | none =>
    rw [hs] at hgo
    rw [← hgo]
    dsimp only
    rw [hnone]
    rfl
  | some mr =>
    rw [hs] at hgo
    exact hgo

theorem MoverOk.goesOn (h : MoverOk cfg s) (h0 : s.statics.slabRebalanceSignal ≠ 0) (hend : s.pc ≠ .ended) :
    (∃ u, s.owner = some (.caller u)) ∨ ∃ e t, MoverOp.OfMover e ∧ MoverStep cfg s e t := by
  have hlock : s.pc = .lock ∨ s.pc = .woken →
      (∃ u, s.owner = some (.caller u)) ∨ ∃ e t, MoverOp.OfMover e ∧ MoverStep cfg s e t := by
    intro hpc
    cases hown : s.owner with
    | none => exact .inr ⟨.lock, _, trivial, .lock s hpc hown⟩
    | some user =>
      cases user with
      | caller u => exact .inl ⟨u, rfl⟩
      | mover =>
        have hl := h.owned.mp hown
        rcases hpc with hpc | hpc <;> rw [hpc] at hl <;> exact hl.elim
  cases hpc : s.pc with
  | lock => exact hlock (.inl hpc)
  | woken => exact hlock (.inr hpc)
  | loop => exact .inr ⟨.loop true [], _, trivial, .loop s true [] hpc⟩
  | testDone => exact .inr ⟨.testDone [], _, trivial, .testDone s [] hpc fun _ _ => ⟨List.nodup_nil, by simp⟩⟩
  | testSignal => exact .inr ⟨.testSignal, _, trivial, .testSignal s hpc⟩
  | waiting => exact absurd hpc (h.awake h0)
  | ended => exact absurd hpc hend

/-- In every run of the page mover, the threads that ask it for moves and those that work on
items, the requests are served. -/
theorem requests_served {es : List (MoverOp τ)} (hr : Run (MoverStep cfg) (moverInit τ k) es s) : RequestsServed cfg k s := by
  have hall := hr.invariant (I := fun s => MoverOk cfg s ∧ ∃ ops, Run (MemoryStep cfg) (memoryInit k) ops s.run)
    (fun s e t hi hs => by
      obtain ⟨h, ops, hops⟩ := hi
      obtain ⟨h', hadv⟩ := hs.keeps h
      rcases hadv with he | ⟨op, hop⟩
      · exact ⟨h', ops, by rw [he]; exact hops⟩
      · exact ⟨h', ops ++ [op], hops.append (.single hop)⟩) ⟨moverOk_init, [], .nil _⟩
  obtain ⟨h, hmem⟩ := hall
  refine ⟨h.order, h.moves, fun r hr => ?_, hmem, fun h1 hrun grown frees t hs => ?_, h.goesOn, fun hpc es t hrun hwake he => ?_⟩
  · have h2 : s.statics.slabRebalanceSignal = 2 := by
      by_contra hne
      rw [h.idle.mpr hne] at hr
      cases hr
    rw [MoverState.moving, if_pos h2, h.named r hr]
  · cases hs with
    | loop => exact h.starts h1 hrun grown frees
  · rcases sleeps_of_run hrun hpc hwake with hstill | hmore
    · exact hstill
    · rw [he] at hmore
      exact absurd hmore (Nat.lt_irrefl _)

end

/-! ## A move that is asked for -/

/-- The allocator's counts of the pages. -/
def countPages (cfg : Settings) (m : ItemMemory) : Slabs where
  slabclass c := { emptyClass 0 0 with slabs := UInt32.ofNat (m.slabList (Fin.ofNat LARGEST_ID c)).length }
  memLimit := 0
  memMalloced := 0
  powerLargest := cfg.slabclass.sizes.length
  memBase := none
  memCurrent := 0
  memAvail := 0
  mem := fun _ => zeroHeader
  calls := 0

theorem pagesOf_countPages {m : ItemMemory} (h : ∀ c, (m.slabList c).length < 2 ^ 32) : PagesOf cfg m (countPages cfg m) := by
  refine ⟨rfl, fun c => ?_⟩
  have hc : Fin.ofNat LARGEST_ID c.val = c := Fin.ofNat_val_eq_self c
  change (UInt32.ofNat (m.slabList (Fin.ofNat LARGEST_ID c.val)).length).toNat = _
  rw [hc, UInt32.toNat_ofNat']
  exact Nat.mod_eq_of_lt (h c)

/-- Commands and allocations while the mover stays where it is. -/
theorem Run.of_memory {u v : MemoryState} {ops : List MemoryOp} (hr : Run (MemoryStep cfg) u ops v) (s : MoverState τ)
    (hops : ∀ op ∈ ops, op.OfOthers) :
    Run (MoverStep cfg) { s with run := u } (ops.map MoverOp.memory) { s with run := v } := by
  induction hr with
  | nil u => exact .nil _
  | @cons u w v op ops hs _ ih =>
    have hstep : MoverStep cfg { s with run := u } (.memory op) { s with run := w } :=
      .memory { s with run := u } hs (hops op List.mem_cons_self)
    exact .cons hstep (ih fun op hop => hops op (List.mem_cons_of_mem _ hop))

theorem requests_served_moving : ∃ es s, Run (MoverStep twoClasses) (moverInit Unit 16) es s ∧
    s.accepted = [(1, 2)] ∧ s.moving = [(1, 2)] ∧ RequestsServed twoClasses 16 s := by
  have hstored := Run.of_memory secondState_run (moverInit Unit 16) (by simp [storedOps, MemoryOp.OfOthers])
  have hpages : PagesOf twoClasses secondState.memory (countPages twoClasses secondState.memory) :=
    pagesOf_countPages (by decide +kernel)
  have hrun : ∃ es s, Run (MoverStep twoClasses) (moverInit Unit 16) es s ∧ s.accepted = [(1, 2)] ∧ s.moving = [(1, 2)] := by
    refine ⟨_, _, hstored.append <| .cons (.lock _ (.inl rfl) rfl) <| .cons (.loop _ true [] rfl) <|
      .cons (.testDone _ [] rfl (by simp [MoverState.loop, moverInit, secondState])) <| .cons (.testSignal _ rfl) <|
      .cons (.enter _ () rfl) <| .cons (.reassign _ () _ 1 2 rfl hpages) <| .cons (.leave _ () rfl) <|
      .cons (.lock _ (.inr rfl) rfl) <| .single (.loop _ true [] rfl), ?_, ?_⟩
    · rfl
    · rfl
  obtain ⟨es, s, hr, h1, h2⟩ := hrun
  exact ⟨es, s, hr, h1, h2, requests_served hr⟩

end RamCube
