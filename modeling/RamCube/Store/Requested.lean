import RamCube.Store.MemoryRuns

/-! # The bytes requested from a class

`slabclass[id].requested` counts the bytes of the items that are allocated from a class. The
commands keep that count, an allocation adds to it what its item takes, and a page takes its
free chunks along without one. A stored item that a page move unlinks stays counted. -/
namespace RamCube

variable {cfg : Settings} {held : Ptr → Nat} {m m' : ItemMemory} {r : Rebalance} {id c : SlabId} {ntotal : Nat}
  {it p : Ptr}

/-! ## Sums over chunks -/

/-- A sum in which one term changes. -/
theorem sum_change {α : Type} {l : List α} (hnd : l.Nodup) {f g : α → Nat} {a : α} (ha : a ∈ l)
    (hfg : ∀ x, x ≠ a → f x = g x) : (l.map f).sum + g a = (l.map g).sum + f a := by
  induction l with
  | nil => cases ha
  | cons x xs ih =>
    obtain ⟨hx, hxs⟩ := List.nodup_cons.mp hnd
    rw [List.map_cons, List.map_cons, List.sum_cons, List.sum_cons]
    by_cases he : x = a
    · subst he
      have hsame : xs.map f = xs.map g := List.map_congr_left fun y hy => hfg y fun h => hx (h ▸ hy)
      rw [hsame]
      omega
    · have hi := ih hxs (List.mem_of_ne_of_mem (Ne.symm he) ha)
      rw [hfg x he]
      omega

theorem sum_filter {α : Type} (l : List α) (q : α → Bool) (f : α → Nat) :
    ((l.filter q).map f).sum = (l.map fun a => if q a then f a else 0).sum := by
  induction l with
  | nil => rfl
  | cons a as ih =>
    by_cases h : q a = true
    · simp [h, ih]
    · simp [h, ih]

/-! ## The bytes in use -/

/-- The items allocated from a class: those in its chunks that somebody refers to. -/
def ItemMemory.allocated (m : ItemMemory) (c : SlabId) : List Ptr :=
  (m.chunks c).filter fun p => decide (0 < (m.store.mem p).refcount)

/-- The sum of `ITEM_ntotal` over them. -/
def ItemMemory.inUse (m : ItemMemory) (c : SlabId) : Nat :=
  ((m.allocated c).map fun p => itemNtotal (m.store.mem p)).sum

/-- What a chunk adds to the sum. -/
def weight : Option (SlabId × Nat) → Nat
  | none => 0
  | some (_, n) => n

theorem inUse_eq (m : ItemMemory) (c : SlabId) :
    m.inUse c = ((m.chunks c).map fun p => weight (charge (m.store.mem p))).sum := by
  rw [ItemMemory.inUse, ItemMemory.allocated, sum_filter]
  congr 1
  refine List.map_congr_left fun p _ => ?_
  unfold charge
  by_cases h : 0 < (m.store.mem p).refcount
  · simp [h, weight]
  · simp [h, weight]

theorem inUse_congr (hl : m'.slabList = m.slabList) (hc : ∀ p, charge (m'.store.mem p) = charge (m.store.mem p))
    (c : SlabId) : m'.inUse c = m.inUse c := by
  rw [inUse_eq, inUse_eq, ItemMemory.chunks, hl]
  exact congrArg List.sum (List.map_congr_left fun p _ => by rw [hc p])

/-- One chunk of the class `c` changes hands. -/
theorem inUse_change (hpl : Placed cfg m) (hl : m'.slabList = m.slabList) (hit : it ∈ m.chunks c)
    (ho : ∀ p, p ≠ it → charge (m'.store.mem p) = charge (m.store.mem p)) :
    m'.inUse c + weight (charge (m.store.mem it)) = m.inUse c + weight (charge (m'.store.mem it)) ∧
      ∀ c', c' ≠ c → m'.inUse c' = m.inUse c' := by
  have hchunks : ∀ c, m'.chunks c = m.chunks c := fun c => by rw [ItemMemory.chunks, hl, ItemMemory.chunks]
  constructor
  · rw [inUse_eq, inUse_eq, hchunks]
    exact sum_change (f := fun p => weight (charge (m'.store.mem p))) (g := fun p => weight (charge (m.store.mem p)))
      (hpl.nodup c) hit fun p hp => congrArg weight (ho p hp)
  · intro c' hc
    rw [inUse_eq, inUse_eq, hchunks]
    refine congrArg List.sum (List.map_congr_left fun p hp => ?_)
    have hne : p ≠ it := fun he => hc (hpl.apart c' c p hp (he ▸ hit))
    rw [ho p hne]

/-- Every class counts the bytes in use, and those set aside. -/
def Balanced (m : ItemMemory) (aside : SlabId → Nat) : Prop :=
  ∀ c, m.requested c = UInt64.ofNat (m.inUse c + aside c)

theorem Balanced.congr {aside : SlabId → Nat} (h : Balanced m aside) (hl : m'.slabList = m.slabList)
    (hr : m'.requested = m.requested) (hc : ∀ p, charge (m'.store.mem p) = charge (m.store.mem p)) :
    Balanced m' aside := by
  intro c
  rw [hr, h c, inUse_congr hl hc]

theorem Balanced.free {n : Nat} {aside : SlabId → Nat} (h : Balanced m aside) (hpl : Placed cfg m) (hf : Frees m m' it c n) :
    Balanced m' aside := by
  obtain ⟨hsum, hother⟩ := inUse_change hpl hf.slabList (hpl.used it c n hf.charged) hf.others
  rw [hf.charged, hf.free] at hsum
  intro c'
  rw [hf.requested]
  by_cases hc : c' = c
  · subst hc
    have hn : m.inUse c' + aside c' = m'.inUse c' + aside c' + n := by
      simp only [weight] at hsum
      omega
    rw [Function.update_self, h c', hn, UInt64.ofNat_add, UInt64.add_sub_cancel]
  · rw [Function.update_of_ne hc, h c', hother c' hc]

theorem Gives.balanced {aside : SlabId → Nat} (h : Gives m m') (hpl : Placed cfg m) (hc : Balanced m aside) :
    Balanced m' aside := by
  induction h with
  | refl => exact hc
  | same hs _ ih => exact ih (hpl.same hs) (hc.congr rfl rfl hs.charge)
  | free hf _ ih => exact ih (hpl.free hf) (hc.free hpl hf)

/-! ## Allocations -/

theorem Balanced.newslab {page : List Ptr} {aside : SlabId → Nat} (h : Balanced m aside) (hpl : Placed cfg m)
    (hnew : ∀ p ∈ page, p ∉ m.store.carved) : Balanced (m.slabsNewslab id page) aside := by
  have hmem : ∀ c, ∀ p ∈ m.chunks c, (m.slabsNewslab id page).store.mem p = m.store.mem p := fun c p hp =>
    if_neg fun hm => hnew p hm ((hpl.carved p).mpr ⟨c, hp⟩)
  have hold : ∀ c, ((m.chunks c).map fun p => weight (charge ((m.slabsNewslab id page).store.mem p))).sum =
      m.inUse c := fun c => by
    rw [inUse_eq]
    exact congrArg List.sum (List.map_congr_left fun p hp => by rw [hmem c p hp])
  have hpage : (page.map fun p => weight (charge ((m.slabsNewslab id page).store.mem p))).sum = 0 := by
    refine List.sum_eq_zero fun n hn => ?_
    obtain ⟨p, hp, rfl⟩ := List.mem_map.mp hn
    have hempty : (m.slabsNewslab id page).store.mem p = emptyItem := if_pos hp
    rw [hempty]
    rfl
  intro c
  have hsum : (m.slabsNewslab id page).inUse c = m.inUse c := by
    by_cases hc : c = id
    · subst hc
      have hsplit : (m.slabsNewslab c page).chunks c = m.chunks c ++ page := by
        simp [ItemMemory.chunks, ItemMemory.slabsNewslab]
      rw [inUse_eq, hsplit, List.map_append, List.sum_append, hold, hpage, Nat.add_zero]
    · have hsame : (m.slabsNewslab id page).chunks c = m.chunks c := by
        simp [ItemMemory.chunks, ItemMemory.slabsNewslab, hc]
      rw [inUse_eq, hsame, hold]
  rw [hsum]
  exact h c

/-- The bytes of the item that is to fill the chunk set aside. -/
def asideFor (id : SlabId) (ntotal : Nat) : SlabId → Nat := Function.update (fun _ => 0) id ntotal

theorem Reserves.balanced (h : Reserves id ntotal it m m') (hid : 1 ≤ id.val ∧ id.val ≤ cfg.slabclass.sizes.length)
    (hpl : Placed cfg m) (hc : Balanced m fun _ => 0) : Balanced m' (asideFor id ntotal) := by
  induction h with
  | same hs _ ih => exact ih (hpl.same hs) (hc.congr rfl rfl hs.charge)
  | grow hnd hnew _ ih => exact ih (hpl.newslab hid hnd hnew) (hc.newslab hpl hnew)
  | @pop m rest s' hslots hs =>
    intro c
    have hsum : ItemMemory.inUse { m with
        store := s'
        requested := Function.update m.requested id (m.requested id + UInt64.ofNat ntotal) } c = m.inUse c := by
      refine inUse_congr (m := m) ?_ hs.charge c
      rfl
    rw [hsum]
    by_cases he : c = id
    · subst he
      change Function.update m.requested c _ c = _
      rw [Function.update_self, hc c, asideFor, Function.update_self, Nat.add_zero, ← UInt64.ofNat_add]
    · change Function.update m.requested id _ c = _
      rw [Function.update_of_ne he, hc c, asideFor, Function.update_of_ne he]
  | @reuse m m' old hr =>
    obtain ⟨hsum, hother⟩ := inUse_change hpl hr.slabList (hpl.used it id old hr.charged) hr.others
    rw [hr.charged, hr.free] at hsum
    intro c
    rw [hr.requested]
    by_cases he : c = id
    · subst he
      have hn : m.inUse c = m'.inUse c + old := by
        simp only [weight] at hsum
        omega
      rw [Function.update_self, hc c, asideFor, Function.update_self, Nat.add_zero, hn, UInt64.ofNat_add,
        UInt64.add_sub_cancel, ← UInt64.ofNat_add]
    · rw [Function.update_of_ne he, hc c, hother c he, asideFor, Function.update_of_ne he]

/-- The item takes the bytes that were set aside for it. -/
theorem Balanced.filled {f : Item → Item} (h : Balanced m (asideFor id ntotal)) (hs : Spent m it)
    (hh : Handed cfg id ntotal held (m.onStore fun s => s.modify it f) it) :
    Balanced (m.onStore fun s => s.modify it f) fun _ => 0 := by
  have ho : ∀ p, p ≠ it → charge (m.store.mem p) = charge ((m.onStore fun s => s.modify it f).store.mem p) :=
    fun p hp => congrArg charge (modify_mem_of_ne hp).symm
  obtain ⟨hsum, hother⟩ := @inUse_change cfg (m.onStore fun s => s.modify it f) m id it hh.placed rfl hh.chunk ho
  rw [hh.charged, hs.idle] at hsum
  intro c
  change m.requested c = _
  rw [h c, asideFor]
  by_cases he : c = id
  · subst he
    simp only [weight] at hsum
    rw [Function.update_self, hsum]
  · rw [Function.update_of_ne he, hother c he]

/-! ## Pages that move -/

/-- Does the move take a stored item that only its link refers to? -/
def Rebalance.TakesLinked (r : Rebalance) (m : ItemMemory) (frees : List Bool) : Prop :=
  ∃ i p, frees[i]? = some true ∧ r.page[r.pos + i]? = some p ∧ (m.store.mem p).linked = true ∧
    (m.store.mem p).refcount = 1

theorem moveLoop_balanced (frees : List Bool) (h : Moving cfg held m r) (hdone : r.done = false)
    (hno : ¬r.TakesLinked m frees) {aside : SlabId → Nat} (hc : Balanced m aside) :
    Balanced (ItemMemory.moveLoop cfg frees (m, r)).1 aside := by
  induction frees generalizing m r with
  | nil => exact hc
  | cons free frees ih =>
    simp only [ItemMemory.moveLoop]
    cases hit : r.page[r.pos]? with
    | none => exact hc
    | some it =>
      have hturn := moveTurn_turn h.store h.placed h.rebal (List.mem_of_getElem? hit) free
      obtain ⟨h', hdone', hpage⟩ := hturn.keeps h hdone hit
      change Balanced (ItemMemory.moveLoop cfg frees (m.moveTurn cfg r it free)).1 aside
      generalize m.moveTurn cfg r it free = mr at *
      obtain ⟨m₁, r₁⟩ := mr
      -- the chunks behind the position are as before the turn
      have hlater : r₁.pos = r.pos + 1 → (∀ p, (m₁.store.mem p).linked = true ∧ (m₁.store.mem p).refcount = 1 →
          (m.store.mem p).linked = true ∧ (m.store.mem p).refcount = 1) → ¬r₁.TakesLinked m₁ frees := by
        intro hpos hmem htakes
        obtain ⟨i, p, hi, hp, hl⟩ := htakes
        have hp' : r.page[r.pos + (i + 1)]? = some p := by
          rw [← hp, ← hpage, hpos]
          congr 1
          omega
        exact hno ⟨i + 1, p, by simpa using hi, hp', hmem p hl⟩
      cases hturn with
      | passed => exact ih h' hdone' (hlater rfl fun _ hp => hp) hc
      | busy => exact ih h' hdone' (hlater rfl fun _ hp => hp) hc
      | cleared hfree hclear =>
        have hzero : (m.store.mem it).refcount = 0 := by
          rcases hclear.was with h0 | ⟨h1, hl⟩
          · exact h0
          · exact absurd ⟨0, it, by simp [hfree], by simpa using hit, hl, h1⟩ hno
        have hcharge : ∀ p, charge (m₁.store.mem p) = charge (m.store.mem p) := by
          intro p
          by_cases hp : p = it
          · rw [hp, hclear.idle, charge_eq_none.mpr hzero]
          · exact (hclear.others p hp).1
        refine ih h' hdone' (hlater rfl fun p hp => ?_) (hc.congr hclear.slabList hclear.requested hcharge)
        have hne : p ≠ it := by
          intro he
          have h0 := charge_eq_none.mp hclear.idle
          rw [← he] at h0
          exact absurd (h0.symm.trans hp.2) Nat.zero_ne_one
        obtain ⟨_, hrefs, hlinked⟩ := hclear.others p hne
        rw [hrefs, hlinked] at hp
        exact hp

/-- A page that is cleared counts for nothing. -/
theorem Balanced.dropPage {aside : SlabId → Nat} (h : Balanced m aside) (hm : Moving cfg held m r) (hdone : r.done = true) :
    Balanced (RamCube.dropPage m r) aside := by
  intro c
  change m.requested c = _
  rw [h c]
  suffices hsum : m.inUse c = (RamCube.dropPage m r).inUse c by rw [hsum]
  rw [inUse_eq, inUse_eq]
  by_cases hc : c = r.src
  · subst hc
    have hpage : (r.page.map fun p => weight (charge (m.store.mem p))).sum = 0 := by
      refine List.sum_eq_zero fun n hn => ?_
      obtain ⟨p, hp, rfl⟩ := List.mem_map.mp hn
      rw [(hm.rebal.spent p (hm.rebal.finished hdone p hp)).idle]
      rfl
    rw [(hm.rebal.perm_chunks.map fun p => weight (charge (m.store.mem p))).sum_eq, List.map_append, List.sum_append,
      hpage, Nat.zero_add]
    rfl
  · rw [chunks_dropPage m r hc]
    rfl

/-! ## Runs -/

/-- The step is no page move that takes a stored item. -/
def TakesNone (s : MemoryState) : MemoryOp → Prop
  | .move frees => ∀ r ∈ s.rebal, ¬r.TakesLinked s.memory frees
  | _ => True

theorem MemoryStep.balanced {s s' : MemoryState} {op : MemoryOp} (h : PagedOk cfg s) (hc : Balanced s.memory fun _ => 0)
    (hno : TakesNone s op) (hs : MemoryStep cfg s op s') : Balanced s'.memory fun _ => 0 := by
  cases hs with
  | item m held rebal hstep hop => exact (gives_perform h.store h.placed hstep hop).1.balanced h.placed hc
  | allocate m held rebal env entry key flags exptime nbytes curHv hreq hf hfires =>
    obtain ⟨live, lru, hok⟩ := h.store
    obtain ⟨a, it, m₁, held₁, he, hrep, hend, hnone⟩ :=
      @doItemAlloc_end cfg env entry curHv held live lru m hok h.placed hf key flags exptime nbytes
    obtain ⟨rfl, rfl⟩ := hrep.start (hnone hfires)
    rw [he]
    cases it with
    | none =>
      have hmem : a.memory = m₁ := hend
      rw [hmem]
      exact hc
    | some it =>
      obtain ⟨h0, m₂, haside, hmem⟩ := hend
      have hrange := slabsClsid_range h0
      have hh := haside.filled h.placed hrange hreq rfl exptime
      obtain ⟨_, hready, _⟩ := haside.found
      rw [hmem]
      exact (haside.reserves.balanced hrange h.placed hc).filled ⟨charge_eq_none.mpr hready.free, hready.off⟩ hh
  | startMove m held src dst grown hstart =>
    unfold ItemMemory.slabRebalanceStart at hstart
    split at hstart
    · cases hstart
    · cases hstart
      exact hc.congr rfl rfl fun _ => rfl
  | refuseMove => exact hc
  | move m held r frees hdone =>
    have hloop := moveLoop_balanced frees ⟨h.store, h.placed, h.rebal r rfl⟩ hdone (hno r rfl) hc
    change Balanced (m.slabRebalanceMove cfg r frees).1 _
    unfold ItemMemory.slabRebalanceMove
    generalize ItemMemory.moveLoop cfg frees (m, r) = mr at *
    obtain ⟨m₁, r₁⟩ := mr
    dsimp only at *
    split
    · split <;> exact hloop
    · exact hloop
  | finishMove m held r chunks hdone hnd hnew =>
    have hmoving : Moving cfg held m r := ⟨h.store, h.placed, h.rebal r rfl⟩
    obtain ⟨_, hpl⟩ := hmoving.dropPage hdone
    have hout : ∀ p ∈ chunks, p ∉ (dropPage m r).store.carved := by
      intro p hp hm
      have hm : p ∈ m.store.carved ∧ p ∉ r.page := by simpa [dropPage] using hm
      exact hm.2 (hnew p hp hm.1)
    exact ((hc.dropPage hmoving hdone).newslab hpl hout).congr rfl rfl fun _ => rfl

/-- While no page move takes a stored item, every class counts the bytes of the items that
are allocated from it. -/
theorem requested_counts {n : Nat} {ops : List MemoryOp} {s : MemoryState}
    (hr : Run (Guarded TakesNone (MemoryStep cfg)) (memoryInit n) ops s) (c : SlabId) :
    s.memory.requested c = UInt64.ofNat (s.memory.inUse c) := by
  have hinit : Balanced (memoryInit n).memory fun _ => 0 := fun _ => rfl
  obtain ⟨_, hbalanced⟩ := hr.invariant_of_guard (I := fun s => PagedOk cfg s ∧ Balanced s.memory fun _ => 0)
    (fun _ _ _ hi hno hs => ⟨hs.keeps hi.1, hs.balanced hi.1 hi.2 hno⟩) ⟨pagedOk_init cfg n, hinit⟩
  exact hbalanced c

/-! ## A page move that takes a stored item -/

/-- Two classes of chunks. -/
def twoClasses : Settings where
  useCas := true
  evictToFree := true
  slabclass := ⟨[96, 192], by decide⟩
  hash := fun _ => 0
  refMod := 2 ^ 16
  counts := counts_ushort

/-- An allocation that may get a page of one chunk. -/
def pageAt (page : Ptr) : LockEnv := ⟨4, fun _ _ => false, some [page]⟩

/-- An item is stored in the one chunk of its page. -/
def storedState : MemoryState :=
  let r := (memoryInit 16).memory.doItemAlloc twoClasses (pageAt 4096) [] [107] 0 0 3 0
  ⟨(r.1.memory.perform twoClasses (.link 4096)).perform twoClasses (.remove 4096),
    dropRef (giveRef (fun _ => 0) r.2) 4096, none⟩

/-- Another item is allocated from a second page. -/
def secondState : MemoryState :=
  let r := storedState.memory.doItemAlloc twoClasses (pageAt 8192) [] [108] 0 0 3 0
  ⟨r.1.memory, giveRef storedState.held r.2, none⟩

def storedOps : List MemoryOp :=
  [.allocate (pageAt 4096) [] [107] 0 0 3 0, .item (.link 4096), .item (.remove 4096)]

theorem storedState_run :
    Run (Guarded TakesNone (MemoryStep twoClasses)) (memoryInit 16) storedOps storedState := by
  have hf : FreshPage (memoryInit 16).memory.store (pageAt 4096).newslab := by
    intro page hp
    cases hp
    simp [memoryInit, storeInit]
  have h1 : MemoryStep twoClasses (memoryInit 16) _ _ := .allocate (memoryInit 16).memory (fun _ => 0) none (pageAt 4096)
    [] [107] 0 0 3 0 ⟨by decide, by decide, by decide⟩ hf (by decide +kernel)
  have h2 : MemoryStep twoClasses _ _ _ := .item _ _ none (.link
    ((memoryInit 16).memory.doItemAlloc twoClasses (pageAt 4096) [] [107] 0 0 3 0).1.memory.store
    (giveRef (fun _ => 0) ((memoryInit 16).memory.doItemAlloc twoClasses (pageAt 4096) [] [107] 0 0 3 0).2) 4096
    (by decide +kernel) (by decide +kernel) (by decide +kernel) (.inr (by decide +kernel))) trivial
  have h3 : MemoryStep twoClasses _ _ storedState := .item _ _ none (.remove _ _ 4096 (by decide +kernel)) trivial
  exact .cons ⟨trivial, h1⟩ (.cons ⟨trivial, h2⟩ (.cons ⟨trivial, h3⟩ (.nil _)))

theorem requested_counts_stored :
    storedState.memory.requested 1 = UInt64.ofNat (storedState.memory.inUse 1) :=
  requested_counts storedState_run 1

theorem secondState_run :
    Run (MemoryStep twoClasses) (memoryInit 16) (storedOps ++ [.allocate (pageAt 8192) [] [108] 0 0 3 0]) secondState := by
  have hf : FreshPage storedState.memory.store (pageAt 8192).newslab := by
    intro page hp
    cases hp
    decide +kernel
  exact storedState_run.unguard.append (.single (.allocate storedState.memory storedState.held none (pageAt 8192) []
    [108] 0 0 3 0 ⟨by decide, by decide, by decide⟩ hf (by decide +kernel)))

/-- A page moves with the item stored in it. The class goes on to count its 67 bytes. -/
theorem moved_item_counted : ∃ ops s, Run (MemoryStep twoClasses) (memoryInit 16) ops s ∧
    s.memory.requested 1 = 134 ∧ s.memory.inUse 1 = 67 ∧
    s.memory.requested 1 ≠ UInt64.ofNat (s.memory.inUse 1) := by
  have h1 : MemoryStep twoClasses secondState (.startMove 1 2 true) _ :=
    .startMove secondState.memory secondState.held 1 2 true (if_neg (by decide +kernel))
  refine ⟨_, _, secondState_run.append (.cons h1 (.single (.move _ _ _ [true] rfl))), ?_⟩
  decide +kernel

end RamCube
