import RamCube.Store.CommandFrames

/-! # A store that gives an error rather than removing items (-M)

Without eviction an allocation can still take an item from the store in two ways: it
reclaims one that is expired or flushed, or repairs one at the tail of its queue that is
referred to and has not moved for three hours. Where nothing is repaired and no count is
full, only the commands that name its key take an item away before its time. -/
namespace RamCube

variable {cfg : Settings} {processStarted : Int} {s s' : ItemsState} {it : Ptr} {key : Bytes}

/-! ## Reclaiming -/

/-- `do_item_alloc` does not look whether a flush mark is set. It is not misled, since no
stored item has the time 0. -/
structure Dated (s : ItemsState) : Prop where
  now : 2 ≤ s.store.currentTime
  time : ∀ p, (s.store.mem p).linked = true → (s.store.mem p).time ≠ 0

theorem now_ne_zero {now : UInt32} (h : 2 ≤ now) : now ≠ 0 := by
  rintro rfl
  exact absurd h (UInt32.not_le.mpr (by decide))

theorem dated_init (n : Nat) : Dated (itemsInit n) where
  now := UInt32.le_refl _
  time := fun p hp => by simp [itemsInit, storeInit, emptyItem] at hp

/-- A step leaves the time of an item alone or sets it to the current time. -/
theorem Dated.of_run {w : Bytes → UInt64 → Prop} (hi : FlushInv cfg s) (h : Dated s)
    (hr : ∃ ops, Run (QuietStep cfg w) s ops s') : Dated s' := by
  obtain ⟨ops, hr⟩ := hr
  induction hr with
  | nil => exact h
  | cons hs _ ih =>
    obtain ⟨hnow, _⟩ := (hs.2.env hi.ok).2 hs.1.1.timeless
    refine ih (hi.step hs.2 hs.1.1.forward) ⟨hnow ▸ h.now, fun p hp => ?_⟩
    rcases hs.2.kept hi.ok hi.items p hp with hk | ⟨_, hj⟩
    · rcases hk.moved with ht | ht
      · rw [ht]
        exact h.time p hk.linked
      · rw [ht]
        exact now_ne_zero h.now
    · rw [hj.time]
      exact now_ne_zero h.now

/-- A step that changes no item but for taking it out of the store. -/
theorem Dated.of_body (h : Dated s) (hnow : s.store.currentTime ≤ s'.store.currentTime)
    (hm : ∀ p, (s'.store.mem p).body = (s.store.mem p).body ∧
      ((s'.store.mem p).linked = true → (s.store.mem p).linked = true)) : Dated s' where
  now := UInt32.le_trans h.now hnow
  time := fun p hp => by
    rw [time_of_body (hm p).1]
    exact h.time p ((hm p).2 hp)

theorem ClientStep.dated {op : ClientOp} (hi : ClientInv cfg s) (h : Dated s)
    (hq : Unhindered cfg processStarted s op) (hs : ClientStep cfg processStarted s op s') : Dated s' := by
  have hrun : ∀ t : ItemsState, (∃ ops, Run (QuietStep cfg fun _ _ => True) s ops t) → Dated t :=
    fun t hr => h.of_run hi.toFlushInv hr
  cases hs with
  | get s held key => exact hrun _ (getItem_run hi.ok hq)
  | touch s held key exptime => exact hrun _ (touchItem_run hi.ok exptime hq)
  | delete s held key cas => exact hrun _ (deleteItem_run hi.ok cas hq)
  | delta s held env key incr delta cas => exact hrun _ (doAddDelta_run hi.ok cas hq fun _ => trivial)
  | update s held env comm key flags exptime vlen reqCas hn =>
    exact hrun _ (processUpdate_run hi.ok reqCas (by omega) (hq.alloc hn) hq.room)
  | shortNone s held env comm key flags exptime vlen reqCas hn hcall =>
    obtain rfl := hq.refused hn hcall
    exact hrun _ (failedUpdate_run hi.ok comm hq.room)
  | shortSome s held env comm key flags exptime vlen reqCas hn hcall => exact absurd hcall (hq.not_taken hn)
  | complete s held env it comm data hh hl =>
    exact hrun _ (completeNread_run hi.ok hi.items hq fun _ => trivial)
  | release s held it hh => exact hrun _ (run_step (remove_step hh))
  | flushAll s held exptime =>
    have hmem := fun p => flush_mem cfg { s with oldestLive := flushMark processStarted s exptime } p
    exact h.of_body (UInt32.le_of_eq (congrArg (·.1) (hmem 0).2.2.1).symm) fun p => ⟨(hmem p).1, (hmem p).2.1⟩
  | tick s held now hle => exact h.of_body hle fun p => ⟨rfl, id⟩
  | expand s held ok he hp => exact h.of_body (UInt32.le_refl _) fun p => ⟨rfl, id⟩
  | migrate s held he => exact h.of_body (UInt32.le_refl _) fun p => ⟨rfl, id⟩

/-- What an allocation may reclaim is not returned any more. -/
theorem Dated.reclaimed {p : Ptr} (h : Dated s) (hl : (s.store.mem p).linked = true)
    (he : expiredOrFlushed s.store (s.store.mem p) = true) : flushedOrExpired s.store (s.store.mem p) = true := by
  simp only [expiredOrFlushed, flushedOrExpired, Bool.or_eq_true, Bool.and_eq_true, decide_eq_true_eq,
    bne_iff_ne] at he ⊢
  rcases he with ⟨h0, hlt⟩ | ⟨htime, hle⟩
  · exact .inr ⟨h0, UInt32.le_of_lt hlt⟩
  · refine .inl ⟨⟨?_, hle⟩, htime⟩
    intro h0
    rw [h0] at htime
    exact h.time p hl (UInt32.le_zero_iff.mp htime)

/-! ## A flush set in advance -/

/-- A flush under a mark that is not in force yet takes nothing out of the store. -/
theorem flush_later {s : Store} {held : Ptr → Nat} (h : StoreOk cfg s held) (ho : OrderOk s)
    (hm : s.oldestLive = 0 ∨ s.currentTime < s.oldestLive) : doItemFlushExpired cfg s = s := by
  unfold doItemFlushExpired
  split
  · rfl
  · rename_i h0
    have hlater := hm.resolve_left h0
    have hclass : ∀ c, flushClass cfg (s.sizes c) (s.heads c) s = s := by
      intro c
      cases hh : s.heads c with
      | none => cases s.sizes c <;> rfl
      | some p =>
        have hl : (s.mem p).linked = true := by
          obtain ⟨live, lru, hok⟩ := h
          have hp := List.mem_of_mem_head? ((hok.queues.list c).head_eq.symm.trans hh)
          exact (hok.table.linked p).mpr ((hok.queued c p).mp hp).1
        cases s.sizes c with
        | zero => rfl
        | succ n =>
          have hold : ¬s.oldestLive ≤ (s.mem p).time :=
            UInt32.not_le.mpr (UInt32.lt_of_le_of_lt (ho.past p hl) hlater)
          simp only [flushClass, if_neg hold]
    generalize List.finRange LARGEST_ID = classes
    induction classes with
    | nil => rfl
    | cons c cs ih => rw [List.foldl_cons, hclass, ih]

/-! ## Runs -/

/-- A command that is not about the key: it does not name it, and it is no flush that takes
effect at once. -/
def Spares (processStarted : Int) (key : Bytes) (s : ItemsState) (op : ClientOp) : Prop :=
  keyNamed s.store op ≠ some key ∧ ∀ exptime, op = .flushAll exptime →
    flushMark processStarted s.store exptime = 0 ∨
      s.store.currentTime < flushMark processStarted s.store exptime

theorem ClientStep.spares {op : ClientOp} (hM : cfg.evictToFree = false) (hi : ClientInv cfg s) (hd : Dated s)
    (hq : Unhindered cfg processStarted s op) (hs : ClientStep cfg processStarted s op s')
    (hop : Spares processStarted key s op) (hl : (s.store.mem it).linked = true) (hk : s.store.key it = key)
    (hlive : flushedOrExpired s.store (s.store.mem it) = false) : Untouched s.store s'.store it := by
  by_cases hf : ∃ exptime, op = .flushAll exptime
  · obtain ⟨exptime, rfl⟩ := hf
    cases hs with
    | flushAll s held =>
      have hok : StoreOk cfg { s with oldestLive := flushMark processStarted s exptime } held := hi.ok.clock _ _ _
      have hsame := flush_later hok ⟨hi.order.past, hi.order.sorted⟩ (hop.2 exptime rfl)
      exact ⟨by rw [RamCube.flushAll, hsame], by rw [RamCube.flushAll, hsame]⟩
  · have hnames : ¬Names s op key := fun hn => hn.elim hop.1 hf
    have hused : NotUsed it op := by
      cases hs with
      | complete s held env q comm data hh hu =>
        rintro rfl
        rw [hl] at hu
        cases hu
      | _ => trivial
    rcases hs.apart hi hq (.inl hl) (fun _ => hk ▸ hnames) hused with hu | ⟨_, _, _, ht⟩
    · exact hu
    · -- the chunk was taken from a live item
      rw [hd.reclaimed hl (ht.dead hM hl)] at hlive
      cases hlive

/-- With -M, in every run: from the moment an item is stored, as long as it is neither
expired nor flushed and no command names its key, it stays stored with the same contents
and a retrieval returns it, up to the moment it is expired or flushed. -/
theorem live_item_kept {n : Nat} {as bs : List ClientOp} (hM : cfg.evictToFree = false)
    (hr : Run (Guarded (Unhindered cfg processStarted) (ClientStep cfg processStarted)) (itemsInit n) as s)
    (hl : (s.store.mem it).linked = true) (hk : s.store.key it = key)
    (hr' : Run (fun s op s' => Guarded (Unhindered cfg processStarted) (ClientStep cfg processStarted) s op s' ∧
      Spares processStarted key s op ∧ flushedOrExpired s.store (s.store.mem it) = false) s bs s') :
    (s'.store.mem it).linked = true ∧ (s'.store.mem it).body = (s.store.mem it).body ∧
      ((getItem cfg s'.store key).2 = some it ↔ flushedOrExpired s'.store (s'.store.mem it) = false) := by
  have hreach : ∀ t, Run (Guarded (Unhindered cfg processStarted) (ClientStep cfg processStarted)) (itemsInit n)
      as t → ClientInv cfg t ∧ Dated t := fun t hr =>
    hr.invariant (I := fun t => ClientInv cfg t ∧ Dated t)
      (fun _ _ _ h hs => ⟨(hs.2.keeps_inv h.1 hs.1).1, hs.2.dated h.1 h.2 hs.1⟩)
      ⟨clientInv_init cfg n, dated_init n⟩
  obtain ⟨hinv, hdated⟩ := hreach s hr
  have hkept : ClientInv cfg s' ∧ Untouched s.store s'.store it := by
    clear hr hreach
    induction hr' with
    | nil => exact ⟨hinv, .refl _ it⟩
    | cons hs _ ih =>
      obtain ⟨⟨hq, hstep⟩, hop, hlive⟩ := hs
      have hu := hstep.spares hM hinv hdated hq hop hl hk hlive
      obtain ⟨hinv', hu'⟩ := ih (hu.linked.trans hl) (hu.sameKey.trans hk) (hstep.keeps_inv hinv hq).1
        (hstep.dated hinv hdated hq)
      exact ⟨hinv', hu.trans hu'⟩
  obtain ⟨hinv', hu⟩ := hkept
  have hl' := hu.linked.trans hl
  exact ⟨hl', hu.body, getItem_returns hinv'.ok hinv'.rebal hl' (hu.sameKey.trans hk)⟩

/-! ## No memory, and a slow reader -/

def noEvict : Settings := { oneClass with evictToFree := false }

/-- A page with room for one item. -/
def oneChunk : AllocEnv := ⟨fun _ => true, some [4096]⟩

@[irreducible]
def setK : ItemsState :=
  let r := processUpdate noEvict oneChunk (storeInit 16) .set [107] 0 0 3 0
  ⟨r.1, giveRef (fun _ => 0) r.2⟩

@[irreducible]
def storedK : ItemsState :=
  ⟨(completeNread noEvict noPage setK.store 4096 .set [118, 13, 10]).1, dropRef setK.held 4096⟩

/-- The start of a set of `j`. -/
@[irreducible]
def setJ (s : ItemsState) : ItemsState :=
  let r := processUpdate noEvict noPage s.store .set [106] 0 0 3 0
  ⟨r.1, giveRef s.held r.2⟩

theorem storedK_run : Run (Guarded (Unhindered noEvict 0) (ClientStep noEvict 0)) (itemsInit 16)
    [.update oneChunk .set [107] 0 0 3 0, .complete noPage 4096 .set [118, 13, 10]] storedK := by
  have h1 : ClientStep noEvict 0 (itemsInit 16) (.update oneChunk .set [107] 0 0 3 0) setK := by
    unfold setK
    exact .update _ _ oneChunk .set [107] 0 0 3 0 (by decide)
  have hh : 0 < setK.held 4096 := by decide +kernel
  have hl : (setK.store.mem 4096).linked = false := by decide +kernel
  have h2 : ClientStep noEvict 0 setK (.complete noPage 4096 .set [118, 13, 10]) storedK := by
    unfold storedK
    exact .complete _ _ noPage 4096 .set [118, 13, 10] hh hl
  refine .cons ⟨⟨fun _ => ⟨?_, rfl⟩, nofun, fun _ _ _ => .inl rfl⟩, h1⟩ (.single ⟨⟨hh, ?_, .inl rfl, fun _ _ _ => .inl rfl,
    fun _ _ _ hm => hm.1.elim nofun nofun⟩, h2⟩)
  · simp [FreshPage, oneChunk, itemsInit, storeInit]
  · rw [modify_field (·.linked) rfl]
    exact hl

theorem setJ_step (s : ItemsState) : ClientStep noEvict 0 s (.update noPage .set [106] 0 0 3 0) (setJ s) := by
  unfold setJ
  exact .update s.store s.held noPage .set [106] 0 0 3 0 (by decide)

/-- There is no memory for `j`, and `k` is returned as before. -/
theorem live_item_kept_full : (setJ storedK).held = storedK.held ∧
    (getItem noEvict (setJ storedK).store [107]).2 = some 4096 := by
  have hspares : Spares 0 [107] storedK (.update noPage .set [106] 0 0 3 0) := ⟨nofun, nofun⟩
  have hguard : Unhindered noEvict 0 storedK (.update noPage .set [106] 0 0 3 0) :=
    ⟨fun _ => ⟨by simp [FreshPage, noPage], by decide +kernel⟩, nofun, fun _ _ _ => .inl rfl⟩
  have hl : (storedK.store.mem 4096).linked = true := by decide +kernel
  have hkept := live_item_kept rfl storedK_run hl (by decide +kernel)
    (.single ⟨⟨hguard, setJ_step storedK⟩, hspares, by decide +kernel⟩)
  have hnone : (processUpdate noEvict noPage storedK.store .set [106] 0 0 3 0).2 = none := by decide +kernel
  refine ⟨?_, hkept.2.2.mpr (by decide +kernel)⟩
  unfold setJ
  dsimp only
  rw [hnone, giveRef]

/-- A client that asked for `k` has not read the answer for three hours. -/
@[irreducible]
def slowReader : ItemsState :=
  let r := getItem noEvict storedK.store [107]
  ⟨{ r.1 with currentTime := 11000 }, giveRef storedK.held r.2⟩

/-- An allocation for `j` then removes `k`, which neither has expired nor was flushed. -/
theorem live_item_repaired :
    (∃ as, Run (ClientStep noEvict 0) (itemsInit 16) as slowReader) ∧
    (slowReader.store.mem 4096).linked = true ∧ slowReader.store.key 4096 = [107] ∧
    flushedOrExpired slowReader.store (slowReader.store.mem 4096) = false ∧
    ClientStep noEvict 0 slowReader (.update noPage .set [106] 0 0 3 0) (setJ slowReader) ∧
    Spares 0 [107] slowReader (.update noPage .set [106] 0 0 3 0) ∧
    flushedOrExpired (setJ slowReader).store (slowReader.store.mem 4096) = false ∧
    (getItem noEvict (setJ slowReader).store [107]).2 = none := by
  refine ⟨?_, by decide +kernel, by decide +kernel, by decide +kernel, setJ_step slowReader, ⟨nofun, nofun⟩,
    by decide +kernel, by decide +kernel⟩
  have hget : ClientStep noEvict 0 storedK (.get [107]) ⟨(getItem noEvict storedK.store [107]).1,
      giveRef storedK.held (getItem noEvict storedK.store [107]).2⟩ := .get storedK.store storedK.held [107]
  have htick : ClientStep noEvict 0 ⟨(getItem noEvict storedK.store [107]).1,
      giveRef storedK.held (getItem noEvict storedK.store [107]).2⟩ (.tick 11000) slowReader := by
    unfold slowReader
    exact .tick (getItem noEvict storedK.store [107]).1 _ 11000 (by decide +kernel)
  exact ⟨_, storedK_run.unguard.append (.cons hget (.single htick))⟩

end RamCube
