import RamCube.Store.ChunkStates

/-! # How long a page move takes

`slab_rebalance_move` skips the chunks that are busy and starts over at the end of the page. A
chunk is busy while a thread has its item lock or holds a reference to its item. Where none is,
a call clears the chunks that it looks at, and a page of `n` chunks is clear after `2 * (n + 1)`
calls, whatever commands and allocations come between them. -/
namespace RamCube

variable {cfg : Settings} {u v w : MemoryState} {held : Ptr → Nat} {m : ItemMemory} {r : Rebalance} {it : Ptr}

/-- The calls of `slab_rebalance_move` that are left, if each moves on by one chunk at least and
meets no busy one. -/
def Rebalance.left (r : Rebalance) : Nat :=
  if r.done then 0
  else r.page.length + 1 - r.pos + if r.busyItems = 0 then 0 else r.page.length + 1

/-! ## A call that meets no busy chunk -/

/-- A chunk that nobody refers to from outside is cleared, if it is not yet. -/
theorem moveChunk_clears (h : ChunkStatesOk cfg ⟨m, held, some r⟩) (hit : it ∈ r.page) (h0 : held it = 0) :
    (m.moveChunk cfg r it true).2 = .pass ∨ (m.moveChunk cfg r it true).2 = .done := by
  have hstate := h.oneOf ((h.paged.rebal r rfl).chunk hit)
  have hstore : StoreOk cfg m.store held := h.paged.store
  unfold ItemMemory.moveChunk
  by_cases hmarked : it ∈ r.marked
  · rw [if_pos hmarked]
    exact .inl rfl
  rw [if_neg hmarked, if_neg (by simp)]
  dsimp only
  refine .inr ?_
  rcases hstate with ⟨huse, _, _⟩ | ⟨_, hfree, _⟩ | ⟨_, _, hc⟩
  · -- only its link refers to the item
    have hpos : 0 < (m.store.mem it).refcount := huse.1
    have hcount := hstore.refcount_eq it
    rw [h0] at hcount
    have hlinked : (m.store.mem it).linked = true := by
      by_contra hno
      rw [if_neg hno] at hcount
      omega
    rw [if_pos hlinked] at hcount
    have htwo : ((m.onStore fun s => refcountIncr cfg s it).store.mem it).refcount = 2 :=
      (refcountIncr_eq_two hstore it).mpr hcount
    have hl : ((m.onStore fun s => refcountIncr cfg s it).store.mem it).linked = true := by
      rw [ItemMemory.store_onStore, refcountIncr, modify_mem_self]
      exact hlinked
    have hone : ¬((m.onStore fun s => refcountIncr cfg s it).store.mem it).refcount = 1 := by
      rw [htwo]
      simp
    rw [if_neg hone, if_pos htwo, if_pos hl]
  · have hone : ((m.onStore fun s => refcountIncr cfg s it).store.mem it).refcount = 1 :=
      (refcountIncr_eq_one hstore it).mpr hfree.2.2
    have hslabbed : ((m.onStore fun s => refcountIncr cfg s it).store.mem it).slabbed = true := by
      rw [ItemMemory.store_onStore, refcountIncr, modify_mem_self]
      exact hfree.2.1
    rw [if_pos hone, if_pos hslabbed]
  · obtain ⟨r', hr', hm⟩ := hc
    cases hr'
    exact absurd hm hmarked

theorem moveTurn_clears (h : ChunkStatesOk cfg ⟨m, held, some r⟩) (hit : it ∈ r.page) (h0 : held it = 0) :
    (m.moveTurn cfg r it true).2.busyItems = r.busyItems := by
  have hstatus := moveChunk_clears h hit h0
  unfold ItemMemory.moveTurn
  generalize m.moveChunk cfg r it true = found at *
  obtain ⟨m₁, status⟩ := found
  rcases hstatus with he | he
  · obtain rfl : status = .pass := he
    rfl
  · obtain rfl : status = .done := he
    rfl

theorem moveTurn_pos (m : ItemMemory) (r : Rebalance) (it : Ptr) (free : Bool) :
    (m.moveTurn cfg r it free).2.pos = r.pos + 1 ∧ (m.moveTurn cfg r it free).2.page = r.page := by
  unfold ItemMemory.moveTurn
  split <;> exact ⟨rfl, rfl⟩

/-- The loop stays on the page, and moves on if it has not come to its end. -/
theorem moveLoop_pos (frees : List Bool) (m : ItemMemory) (r : Rebalance) (hpos : r.pos ≤ r.page.length) :
    (ItemMemory.moveLoop cfg frees (m, r)).2.page = r.page ∧
      (ItemMemory.moveLoop cfg frees (m, r)).2.pos ≤ r.page.length ∧
      r.pos ≤ (ItemMemory.moveLoop cfg frees (m, r)).2.pos ∧
      (frees ≠ [] → r.pos < r.page.length → r.pos < (ItemMemory.moveLoop cfg frees (m, r)).2.pos) := by
  induction frees generalizing m r with
  | nil => exact ⟨rfl, hpos, Nat.le_refl _, fun hne => absurd rfl hne⟩
  | cons free frees ih =>
    simp only [ItemMemory.moveLoop]
    cases hit : r.page[r.pos]? with
    | none =>
      rw [List.getElem?_eq_none_iff] at hit
      exact ⟨rfl, hpos, Nat.le_refl _, fun _ hlt => by omega⟩
    | some it =>
      obtain ⟨hlt, _⟩ := List.getElem?_eq_some_iff.mp hit
      obtain ⟨h1, h2⟩ := @moveTurn_pos cfg m r it free
      obtain ⟨k1, k2, k3, _⟩ := ih (m.moveTurn cfg r it free).1 (m.moveTurn cfg r it free).2 (by rw [h1, h2]; omega)
      rw [h2] at k1 k2
      rw [h1] at k3
      exact ⟨k1, k2, Nat.le_trans (Nat.le_succ _) k3, fun _ _ => k3⟩

theorem ChunkStatesOk.moveTurn (h : ChunkStatesOk cfg ⟨m, held, some r⟩) (hdone : r.done = false) {free : Bool}
    (hit : r.page[r.pos]? = some it) :
    ChunkStatesOk cfg ⟨(m.moveTurn cfg r it free).1, held, some (m.moveTurn cfg r it free).2⟩ ∧
      (m.moveTurn cfg r it free).2.done = false := by
  have hturn := moveTurn_turn h.paged.store h.paged.placed (h.paged.rebal r rfl) (List.mem_of_getElem? hit) free
  obtain ⟨hm', hdone', _⟩ := hturn.keeps ⟨h.paged.store, h.paged.placed, h.paged.rebal r rfl⟩ hdone hit
  refine ⟨⟨⟨hm'.store, hm'.placed, fun r' hr' => ?_⟩, marked_moveTurn h.marked hm'.rebal.spent, ?_⟩, hdone'⟩
  · cases hr'
    exact hm'.rebal
  · have htraced : Traced m (· ∈ r.marked) := h.traced.mono fun p hc => by
      obtain ⟨r', hr', hp⟩ := hc
      cases hr'
      exact hp
    exact (traced_moveTurn htraced hturn).mono fun p hp => ⟨_, rfl, hp⟩

/-- Where every lock can be had and nobody holds an item of the page, no chunk counts as busy. -/
theorem moveLoop_clears (frees : List Bool) (h : ChunkStatesOk cfg ⟨m, held, some r⟩) (hdone : r.done = false)
    (hfrees : ∀ free ∈ frees, free = true) (h0 : ∀ p ∈ r.page, held p = 0) :
    (ItemMemory.moveLoop cfg frees (m, r)).2.busyItems = r.busyItems := by
  induction frees generalizing m r with
  | nil => rfl
  | cons free frees ih =>
    obtain rfl : free = true := hfrees free List.mem_cons_self
    simp only [ItemMemory.moveLoop]
    cases hit : r.page[r.pos]? with
    | none => rfl
    | some it =>
      have hin := List.mem_of_getElem? hit
      obtain ⟨h', hdone'⟩ := @ChunkStatesOk.moveTurn cfg held m r it h hdone true hit
      have hpage := (@moveTurn_pos cfg m r it true).2
      have hlater := ih h' hdone' (fun free hf => hfrees free (List.mem_cons_of_mem _ hf)) (by rw [hpage]; exact h0)
      exact hlater.trans (moveTurn_clears h hin (h0 it hin))

/-- A call does something, whether or not it comes to the end of the page. -/
theorem left_slabRebalanceMove {frees : List Bool} (h : ChunkStatesOk cfg ⟨m, held, some r⟩) (hdone : r.done = false)
    (hpos : r.pos ≤ r.page.length) (hne : frees ≠ []) (hfrees : ∀ free ∈ frees, free = true)
    (h0 : ∀ p ∈ r.page, held p = 0) : (m.slabRebalanceMove cfg r frees).2.left < r.left := by
  obtain ⟨hpage, hle, hmono, hon⟩ := @moveLoop_pos cfg frees m r hpos
  have hbusy := moveLoop_clears frees h hdone hfrees h0
  have hdone' := (moveLoop_keeps frees ⟨h.paged.store, h.paged.placed, h.paged.rebal r rfl⟩ hdone).2
  unfold ItemMemory.slabRebalanceMove
  generalize ItemMemory.moveLoop cfg frees (m, r) = mr at *
  obtain ⟨m₁, r₁⟩ := mr
  dsimp only at *
  have hleft : r.left = r.page.length + 1 - r.pos + if r.busyItems = 0 then 0 else r.page.length + 1 := by
    rw [Rebalance.left, hdone]
    simp
  rw [hleft, hpage, hbusy]
  split
  · split
    · rw [Rebalance.left]
      dsimp only
      rw [hdone']
      simp
      omega
    · rw [Rebalance.left]
      dsimp only
      rw [if_pos rfl]
      omega
  · rename_i hnot
    have hlt := hon hne (by omega)
    rw [Rebalance.left, hdone', hpage, hbusy]
    simp
    omega

theorem pos_slabRebalanceMove (frees : List Bool) (m : ItemMemory) (r : Rebalance) (hpos : r.pos ≤ r.page.length) :
    (m.slabRebalanceMove cfg r frees).2.page = r.page ∧ (m.slabRebalanceMove cfg r frees).2.pos ≤ r.page.length := by
  obtain ⟨hpage, hle, _, _⟩ := @moveLoop_pos cfg frees m r hpos
  unfold ItemMemory.slabRebalanceMove
  dsimp only
  split
  · split
    · exact ⟨hpage, Nat.zero_le _⟩
    · exact ⟨hpage, hle⟩
  · exact ⟨hpage, hle⟩

/-! ## Runs -/

/-- A call of `slab_rebalance_move` looks at a chunk at least, has the locks of those that it
looks at, and comes while nobody holds an item of the page. -/
def NoneBusy (u : MemoryState) : MemoryOp → Prop
  | .move frees => frees ≠ [] ∧ (∀ free ∈ frees, free = true) ∧ ∀ r ∈ u.rebal, ∀ p ∈ r.page, u.held p = 0
  | .finishMove _ => False
  | _ => True

def MemoryOp.isMove : MemoryOp → Bool
  | .move _ => true
  | _ => false

/-- The position is on the page. -/
def OnPage (u : MemoryState) : Prop := ∀ r ∈ u.rebal, r.pos ≤ r.page.length

theorem OnPage.step {op : MemoryOp} (h : OnPage u) (hs : MemoryStep cfg u op v) : OnPage v := by
  cases hs with
  | item => exact h
  | allocate => exact h
  | startMove m held src dst grown hstart =>
    unfold ItemMemory.slabRebalanceStart at hstart
    split at hstart
    · cases hstart
    · cases hstart
      intro r hr
      cases hr
      exact Nat.zero_le _
  | refuseMove => exact h
  | move m held r frees hdone =>
    intro r' hr'
    cases hr'
    obtain ⟨hpage, hpos⟩ := @pos_slabRebalanceMove cfg frees m r (h r rfl)
    rw [hpage]
    exact hpos
  | finishMove => exact fun r hr => by cases hr

/-- Every call brings the end closer, and nothing else moves it away. -/
theorem left_step {op : MemoryOp} (h : ChunkStatesOk cfg u) (hpos : OnPage u) (hr : u.rebal = some r) (hc : NoneBusy u op)
    (hs : MemoryStep cfg u op v) :
    ∃ r', v.rebal = some r' ∧ r'.page = r.page ∧ r'.left + [op].countP MemoryOp.isMove ≤ r.left := by
  cases hs with
  | item m held rebal => exact ⟨r, hr, rfl, Nat.le_refl _⟩
  | allocate m held rebal => exact ⟨r, hr, rfl, Nat.le_refl _⟩
  | startMove => cases hr
  | refuseMove => cases hr
  | move m held r₀ frees hdone =>
    cases hr
    obtain ⟨hne, hfrees, h0⟩ := hc
    exact ⟨_, rfl, (@pos_slabRebalanceMove cfg frees m r (hpos r rfl)).1,
      left_slabRebalanceMove h hdone (hpos r rfl) hne hfrees (h0 r rfl)⟩
  | finishMove => exact hc.elim

theorem left_run {ops : List MemoryOp} (h : ChunkStatesOk cfg u) (hpos : OnPage u) (hr : u.rebal = some r)
    (hrun : Run (Guarded NoneBusy (MemoryStep cfg)) u ops v) :
    ∃ r', v.rebal = some r' ∧ r'.page = r.page ∧ r'.left + ops.countP MemoryOp.isMove ≤ r.left := by
  induction hrun generalizing r with
  | nil => exact ⟨r, hr, rfl, Nat.le_refl _⟩
  | @cons u w v op ops hs _ ih =>
    obtain ⟨r₁, hr₁, hpage₁, hle₁⟩ := left_step h hpos hr hs.1 hs.2
    obtain ⟨r₂, hr₂, hpage₂, hle₂⟩ := ih (h.step hs.2) (hpos.step hs.2) hr₁
    refine ⟨r₂, hr₂, hpage₂.trans hpage₁, ?_⟩
    have hcount : (op :: ops).countP MemoryOp.isMove = [op].countP MemoryOp.isMove + ops.countP MemoryOp.isMove := by
      rw [← List.singleton_append, List.countP_append]
    omega

theorem left_le (r : Rebalance) : r.left ≤ 2 * (r.page.length + 1) := by
  unfold Rebalance.left
  split
  · exact Nat.zero_le _
  · split <;> omega

/-- From any reachable state in which a page moves, with any commands and allocations between
the calls of `slab_rebalance_move`: while the page has `n` chunks, fewer than `2 * (n + 1)` calls
that meet no busy chunk leave work to do, and the page that is done with is clear. -/
theorem page_is_cleared {n : Nat} {before ops : List MemoryOp} (hu : Run (MemoryStep cfg) (memoryInit n) before u)
    (hr : u.rebal = some r) (hrun : Run (Guarded NoneBusy (MemoryStep cfg)) u ops v) :
    ∃ r', v.rebal = some r' ∧ r'.page = r.page ∧ ops.countP MemoryOp.isMove ≤ 2 * (r.page.length + 1) ∧
      (r'.done = false → ops.countP MemoryOp.isMove < 2 * (r.page.length + 1)) ∧
      (r'.done = true → ∀ p ∈ r.page, v.Cleared p) := by
  have hpos : OnPage u := hu.invariant (I := OnPage) (fun _ _ _ hi hs => hi.step hs) fun r hr => by cases hr
  have hv : PagedOk cfg v := (hrun.mono fun _ _ _ hs => hs.2).invariant (I := PagedOk cfg) (fun _ _ _ hi hs => hs.keeps hi)
    (memory_run_ok hu)
  obtain ⟨r', hr', hpage, hle⟩ := left_run (chunkStatesOk_of_run hu) hpos hr hrun
  have hbound := left_le r
  refine ⟨r', hr', hpage, by omega, fun hdone => ?_, fun hdone p hp => ?_⟩
  · have hpos' : OnPage v := (hrun.mono fun _ _ _ hs => hs.2).invariant (I := OnPage) (fun _ _ _ hi hs => hi.step hs) hpos
    have hleft : 0 < r'.left := by
      have hin := hpos' r' hr'
      rw [Rebalance.left, hdone]
      simp
      omega
    omega
  · rw [← hpage] at hp
    exact ⟨r', hr', (hv.rebal r' hr').finished hdone p hp⟩

theorem page_is_cleared_clearing : ∃ u v r', Run (Guarded NoneBusy (MemoryStep twoClasses)) u [.move [true]] v ∧
    v.rebal = some r' ∧ r'.page = [4096] ∧ (r'.done = true → ∀ p ∈ [4096], v.Cleared p) := by
  obtain ⟨ops, u, v, hu, ⟨r, hr, hpage⟩, h0, hs, _⟩ := clearing_run
  have hclean : NoneBusy u (.move [true]) := by
    refine ⟨by simp, by simp, fun r' hr' p hp => ?_⟩
    rw [hr] at hr'
    cases hr'
    rw [hpage] at hp
    rw [List.mem_singleton.mp hp]
    exact h0
  have hrun : Run (Guarded NoneBusy (MemoryStep twoClasses)) u [.move [true]] v := .single ⟨hclean, hs⟩
  obtain ⟨r', hr', hsame, _, _, hclear⟩ := page_is_cleared hu hr hrun
  rw [hpage] at hsame hclear
  exact ⟨u, v, r', hrun, hr', hsame, hclear⟩

end RamCube
