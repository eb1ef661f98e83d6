import RamCube.Store.ItemsHistory

/-! # The order of the queues

While the clock does not run backwards, no stored item is newer than the clock and
every queue is sorted by time, the newest item at its head. So the walk of
`do_item_flush_expired`, which stops at the first item older than the flush mark,
unlinks every stored item that is not older than it. -/
namespace RamCube

variable {cfg : Settings} {s : Store} {it : Ptr} {held : Ptr → Nat}

/-- The clock does not run backwards. -/
def Forward (s : ItemsState) : ItemsOp → Prop
  | .clock now _ _ => s.store.currentTime ≤ now
  | _ => True

structure OrderOk (s : Store) : Prop where
  past : ∀ p, (s.mem p).linked = true → (s.mem p).time ≤ s.currentTime
  sorted : ∀ lru, LruOk s.mem s.heads s.tails s.sizes lru →
    ∀ c, (lru c).Pairwise fun p q => (s.mem q).time ≤ (s.mem p).time

/-! ## How each operation moves the queues -/

theorem QueuesMoved.of_mem {s s' : Store} (hm : s'.mem = s.mem) (hh : s'.heads = s.heads)
    (ht : s'.tails = s.tails) (hs : s'.sizes = s.sizes) : QueuesMoved s s' := by
  intro lru hl
  rw [hm, hh, ht, hs]
  exact ⟨lru, hl, fun _ => .of_sublist (List.Sublist.refl _) fun _ _ => by rw [hm]⟩

theorem StoreOk.moved_modify (h : StoreOk cfg s held) {f : Item → Item}
    (hn : (f (s.mem it)).next = (s.mem it).next) (hp : (f (s.mem it)).prev = (s.mem it).prev)
    (hc : (f (s.mem it)).slabsClsid = (s.mem it).slabsClsid)
    (ht : (f (s.mem it)).time = (s.mem it).time) : QueuesMoved s (s.modify it f) := by
  obtain ⟨live, lru, h⟩ := h
  exact .of_same h.queues (h.queues.congr fun c p _ => ⟨modify_field (·.next) hn p,
    modify_field (·.prev) hp p, modify_field (·.slabsClsid) hc p⟩) fun c q _ =>
    modify_field (·.time) ht q

theorem StoreOk.moved_link (h : StoreOk cfg s held) (hp : 0 < held it)
    (hl : (s.mem it).linked = false)
    (hk : assocFind s.key s.assoc (s.key it) (cfg.hash (s.key it)) = none) (hroom : Room cfg s it) :
    QueuesMoved s (doItemLink cfg s it (cfg.hash (s.key it))) := by
  rw [h.find_none] at hk
  obtain ⟨live, lru, h⟩ := h
  have hout : it ∉ live := by
    rw [← h.table.linked, hl]
    simp
  have h' := h.link hp hout (fun x hx => hk x ((h.table.linked x).mpr hx)) hroom
  obtain ⟨l1, l2, _⟩ := link_mem cfg s it (cfg.hash (s.key it))
  have hnow : (doItemLink cfg s it (cfg.hash (s.key it))).currentTime = s.currentTime :=
    congrArg (·.1) (env_link cfg s it (cfg.hash (s.key it))).1
  have hold : ∀ c, ∀ q ∈ lru c, ((doItemLink cfg s it (cfg.hash (s.key it))).mem q).time =
      (s.mem q).time := fun c q hq =>
    time_of_body (l1 q fun hqi => hout (hqi ▸ ((h.queued c q).mp hq).1)).1
  refine .of_queues h.queues h'.queues fun c => ?_
  by_cases hc : c = (s.mem it).slabsClsid
  · subst hc
    rw [Function.update_self]
    refine ⟨[it], _, rfl, List.Sublist.refl _, fun q hq => ?_, hold _⟩
    rw [List.mem_singleton.mp hq, linked_time l2, hnow]
  · rw [Function.update_of_ne hc]
    exact .of_sublist (List.Sublist.refl _) (hold c)

theorem StoreOk.moved_get (h : StoreOk cfg s held) {key : Bytes} (hroom : RoomAt cfg s key) :
    QueuesMoved s (doItemGet cfg s key (cfg.hash key)).1 := by
  unfold doItemGet
  cases hf : assocFind s.key s.assoc key (cfg.hash key) with
  | none => exact .of_mem rfl rfl rfl rfl
  | some it =>
    obtain ⟨hl, rfl⟩ := h.find_iff.mp hf
    have hpos := h.refcount_pos (.inl hl)
    have hr := hroom it hl rfl
    have hi := h.incr hpos hr
    have hmi := h.moved_incr hpos hr
    have hu := hi.unlink it
    have hmu := hi.moved_unlink it
    rw [key_refcountIncr] at hu hmu
    have hnow : (doItemUnlinkNolock cfg (refcountIncr cfg s it) it
        (cfg.hash (s.key it))).currentTime = s.currentTime :=
      congrArg (·.1) (env_unlink cfg (refcountIncr cfg s it) it (cfg.hash (s.key it))).1
    have hone : 0 < addRef held it it := by simp [addRef]
    have hgone := (hmi.trans hmu hnow).trans (hu.moved_remove hone)
      (congrArg (·.1) (env_doItemRemove cfg _ it).1)
    dsimp only
    split
    · exact hgone
    · split
      · exact hgone
      · exact hmi.trans (hi.moved_modify rfl rfl rfl rfl) rfl

theorem StoreOk.moved_touch (h : StoreOk cfg s held) {key : Bytes} (exptime : UInt32)
    (hroom : RoomAt cfg s key) :
    QueuesMoved s (doItemTouch cfg s key exptime (cfg.hash key)).1 := by
  have hg := h.get hroom
  have hm := h.moved_get hroom
  unfold doItemTouch
  rcases hget : doItemGet cfg s key (cfg.hash key) with ⟨s1, r⟩
  rw [hget] at hg hm
  cases r with
  | none => exact hm
  | some it => exact hm.trans (StoreOk.moved_modify hg rfl rfl rfl rfl) rfl

theorem StoreOk.moved_replace (h : StoreOk cfg s held) {newIt : Ptr} (hn : 0 < held newIt)
    (hl : (s.mem newIt).linked = false) (hk : s.key it = s.key newIt)
    (hit : (s.mem it).linked = true) (hroom : Room cfg s newIt) :
    QueuesMoved s (doItemReplace cfg s it newIt (cfg.hash (s.key it))) := by
  have hne : newIt ≠ it := by
    intro he
    rw [he, hit] at hl
    cases hl
  have hu := h.unlink it
  have hm := fun p => unlink_mem cfg s it p (cfg.hash (s.key it))
  have hkey : ∀ p, (doItemUnlinkNolock cfg s it (cfg.hash (s.key it))).key p = s.key p :=
    fun p => key_of_body (hm p).1
  have hnone : assocFind (doItemUnlinkNolock cfg s it (cfg.hash (s.key it))).key
      (doItemUnlinkNolock cfg s it (cfg.hash (s.key it))).assoc
      ((doItemUnlinkNolock cfg s it (cfg.hash (s.key it))).key newIt)
      (cfg.hash ((doItemUnlinkNolock cfg s it (cfg.hash (s.key it))).key newIt)) = none := by
    rw [hu.find_none]
    intro p hp hpk
    rw [(hm p).2.1, Bool.and_eq_true, decide_eq_true_eq] at hp
    rw [hkey, hkey, ← hk] at hpk
    exact hp.2 (h.key_inj hp.1 hit hpk)
  have hlink := hu.moved_link hn (by rw [(hm newIt).2.1, hl]; rfl) hnone (by
    unfold Room at hroom ⊢
    rwa [(hm newIt).2.2 hne])
  rw [hkey newIt, ← hk] at hlink
  exact (h.moved_unlink it).trans hlink (congrArg (·.1) (env_link cfg _ newIt _).1)

theorem StoreOk.moved_flushClass (h : StoreOk cfg s held) (c : SlabId) :
    QueuesMoved s (RamCube.flushClass cfg (s.sizes c) (s.heads c) s) := by
  obtain ⟨live, lru, h⟩ := h
  obtain ⟨live', lru', h', h1, h2, _, hb⟩ := h.flushClass (le_of_eq (h.queues.sizes c).symm)
  refine .of_queues h.queues h'.queues fun c' => .of_sublist ?_ fun q _ => time_of_body (hb q)
  by_cases hc : c' = c
  · rw [hc, h1]
    exact List.dropWhile_sublist _
  · rw [h2 c' hc]

theorem flushClasses_now (cfg : Settings) (classes : List SlabId) (s : Store) :
    (classes.foldl (fun s i => flushClass cfg (s.sizes i) (s.heads i) s) s).currentTime =
      s.currentTime := by
  induction classes generalizing s with
  | nil => rfl
  | cons c cs ih =>
    have hc := (flushClass_linked cfg (s.sizes c) (s.heads c) s 0).2.2.1
    exact (ih _).trans (congrArg (·.1) hc)

theorem StoreOk.moved_flush (h : StoreOk cfg s held) : QueuesMoved s (doItemFlushExpired cfg s) := by
  unfold doItemFlushExpired
  split
  · exact .of_mem rfl rfl rfl rfl
  · rename_i h0
    clear h0
    generalize List.finRange LARGEST_ID = classes
    induction classes generalizing s with
    | nil => exact .of_mem rfl rfl rfl rfl
    | cons c cs ih =>
      exact (h.moved_flushClass c).trans (ih (h.flushClass c)) (flushClasses_now cfg cs _)

theorem ItemsStep.moved {s s' : ItemsState} {op : ItemsOp} (h : StoreOk cfg s.store s.held)
    (hs : ItemsStep cfg s op s') : QueuesMoved s.store s'.store := by
  cases hs with
  | alloc s held env key flags exptime nbytes curHv hn hf hr =>
    rcases doItemAlloc_spec h hf key flags exptime nbytes curHv hr with
      he | ⟨s1, it, id, i, he, _, hk, _⟩
    · rw [he]
      exact .of_mem rfl rfl rfl rfl
    · rw [he]
      exact hk.order
  | link s held it hh hl hk hroom => exact StoreOk.moved_link h hh hl hk hroom
  | unlink s held it => exact StoreOk.moved_unlink h it
  | remove s held it hh => exact StoreOk.moved_remove h hh
  | replace s held it newIt hl hh hn hk hroom => exact StoreOk.moved_replace h hh hn hk hl hroom
  | update s held it => exact StoreOk.moved_update h it
  | get s held key hroom => exact StoreOk.moved_get h hroom
  | touch s held key exptime hroom => exact StoreOk.moved_touch h exptime hroom
  | flushExpired s held => exact StoreOk.moved_flush h
  | write s held it bytes cas hh hl hb =>
    refine StoreOk.moved_modify h ?_ ?_ ?_ ?_
    · rw [itemSetCas_field (·.next) (fun _ _ => rfl)]
    · rw [itemSetCas_field (·.prev) (fun _ _ => rfl)]
    · rw [itemSetCas_field (·.slabsClsid) (fun _ _ => rfl)]
    · rw [itemSetCas_field (·.time) (fun _ _ => rfl)]
  | clock s held now oldest rebal => exact .of_mem rfl rfl rfl rfl
  | expand s held ok he hle => exact .of_mem rfl rfl rfl rfl
  | migrate s held he => exact .of_mem rfl rfl rfl rfl

/-! ## Sorted queues -/

theorem ItemsStep.now_le {s s' : ItemsState} {op : ItemsOp} (h : StoreOk cfg s.store s.held)
    (hf : Forward s op) (hs : ItemsStep cfg s op s') :
    s.store.currentTime ≤ s'.store.currentTime := by
  by_cases ht : Timeless op
  · rw [((hs.env h).2 ht).1]
    exact UInt32.le_refl _
  · cases hs with
    | clock s held now oldest rebal => exact hf
    | _ => exact absurd trivial ht

/-- One step keeps the order, the clock not running backwards. -/
theorem ItemsStep.keeps_order {s s' : ItemsState} {op : ItemsOp} (h : StoreOk cfg s.store s.held)
    (hw : ItemsWf cfg s.store s.held) (ho : OrderOk s.store) (hf : Forward s op)
    (hs : ItemsStep cfg s op s') : OrderOk s'.store := by
  have hnow := hs.now_le h hf
  refine ⟨fun p hp => ?_, fun lru' hl' c => ?_⟩
  · rcases hs.kept h hw p hp with hk | ⟨_, hk⟩
    · rcases hk.moved with ht | ht
      · rw [ht]
        exact UInt32.le_trans (ho.past p hk.linked) hnow
      · rw [ht]
        exact hnow
    · rw [hk.time]
      exact hnow
  · obtain ⟨live, lru, hok⟩ := h
    obtain ⟨lru₁, h₁, hm⟩ := hs.moved ⟨live, lru, hok⟩ lru hok.queues
    rw [hl'.unique h₁]
    obtain ⟨front, rest, he, hsub, hfront, hrest⟩ := hm c
    have hpast : ∀ q ∈ rest, (s'.store.mem q).time ≤ s'.store.currentTime := fun q hq => by
      rw [hrest q hq]
      have hlq := (hok.table.linked q).mpr ((hok.queued c q).mp (hsub.subset hq)).1
      exact UInt32.le_trans (ho.past q hlq) hnow
    rw [he, List.pairwise_append]
    refine ⟨List.pairwise_of_forall_mem_list fun p hp q hq => ?_, ?_, fun p hp q hq => ?_⟩
    · rw [hfront p hp, hfront q hq]
      exact UInt32.le_refl _
    · refine ((ho.sorted lru hok.queues c).sublist hsub).imp_of_mem fun hp hq hle => ?_
      rw [hrest _ hp, hrest _ hq]
      exact hle
    · rw [hfront p hp]
      exact hpast q hq

theorem orderOk_init (n : Nat) : OrderOk (storeInit n) where
  past := fun p hp => by simp [storeInit, emptyItem] at hp
  sorted := fun lru hl c => by
    have hh := (hl.list c).head_eq
    simp only [storeInit] at hh
    rw [List.head?_eq_none_iff.mp hh.symm]
    exact List.Pairwise.nil

/-! ## What a flush leaves -/

/-- The walk over a sorted queue leaves the items older than the mark. -/
theorem StoreOk.flushClass_older (h : StoreOk cfg s held) (ho : OrderOk s) (c : SlabId) {p : Ptr}
    (hp : ((RamCube.flushClass cfg (s.sizes c) (s.heads c) s).mem p).linked = true)
    (hc : ((RamCube.flushClass cfg (s.sizes c) (s.heads c) s).mem p).slabsClsid = c) :
    ((RamCube.flushClass cfg (s.sizes c) (s.heads c) s).mem p).time < s.oldestLive := by
  obtain ⟨live, lru, h⟩ := h
  obtain ⟨live', lru', h', h1, _, _, hb⟩ := h.flushClass (le_of_eq (h.queues.sizes c).symm)
  have hm : p ∈ lru' c := (h'.queued c p).mpr ⟨(h'.table.linked p).mp hp, hc⟩
  have hsorted := ho.sorted lru h.queues c
  rw [h1] at hm
  rw [time_of_body (hb p)]
  generalize lru c = l at hm hsorted
  induction l with
  | nil => cases hm
  | cons q qs ih =>
    obtain ⟨hq, hqs⟩ := List.pairwise_cons.mp hsorted
    by_cases hle : s.oldestLive ≤ (s.mem q).time
    · rw [List.dropWhile_cons_of_pos (by simpa using hle)] at hm
      exact ih hm hqs
    · rw [List.dropWhile_cons_of_neg (by simpa using hle)] at hm
      have hlt : (s.mem q).time < s.oldestLive := UInt32.not_le.mp hle
      rcases List.mem_cons.mp hm with hpq | hpq
      · rwa [hpq]
      · exact UInt32.lt_of_le_of_lt (hq p hpq) hlt

/-- Unlinking leaves the order and the classes of what is still stored. -/
theorem OrderOk.flushClass (h : StoreOk cfg s held) (ho : OrderOk s) (c : SlabId) :
    OrderOk (RamCube.flushClass cfg (s.sizes c) (s.heads c) s) ∧
    ∀ p, ((RamCube.flushClass cfg (s.sizes c) (s.heads c) s).mem p).linked = true →
      ((RamCube.flushClass cfg (s.sizes c) (s.heads c) s).mem p).slabsClsid =
        (s.mem p).slabsClsid := by
  have hf := fun p => flushClass_linked cfg (s.sizes c) (s.heads c) s p
  have hnow := congrArg (·.1) (hf 0).2.2.1
  have hmoved := h.moved_flushClass c
  obtain ⟨live, lru, hok⟩ := h
  obtain ⟨live', lru', h', h1, h2, _, hb⟩ := hok.flushClass (le_of_eq (hok.queues.sizes c).symm)
  have hsub : ∀ c', (lru' c').Sublist (lru c') := by
    intro c'
    by_cases hc : c' = c
    · rw [hc, h1]
      exact List.dropWhile_sublist _
    · rw [h2 c' hc]
  refine ⟨⟨fun p hp => ?_, fun lru₁ hl₁ c' => ?_⟩, fun p hp => ?_⟩
  · rw [time_of_body (hf p).1]
    have hpast := ho.past p ((hf p).2.1 hp)
    exact UInt32.le_trans hpast (UInt32.le_of_eq hnow.symm)
  · rw [hl₁.unique h'.queues]
    refine ((ho.sorted lru hok.queues c').sublist (hsub c')).imp fun hle => ?_
    rw [time_of_body (hb _), time_of_body (hb _)]
    exact hle
  · have hm := (h'.queued _ p).mpr ⟨(h'.table.linked p).mp hp, rfl⟩
    exact ((hok.queued _ p).mp ((hsub _).subset hm)).2.symm

/-- Every class is walked; what a walk leaves is older than the mark and stays so. -/
theorem flushClasses_older (classes : List SlabId) (h : StoreOk cfg s held) (ho : OrderOk s) (p : Ptr)
    (hp : ((classes.foldl (fun s i => flushClass cfg (s.sizes i) (s.heads i) s) s).mem p).linked =
      true) :
    (s.mem p).linked = true ∧ (s.mem p).time = ((classes.foldl (fun s i =>
        flushClass cfg (s.sizes i) (s.heads i) s) s).mem p).time ∧
      ((s.mem p).slabsClsid ∈ classes → (s.mem p).time < s.oldestLive) := by
  induction classes generalizing s with
  | nil => exact ⟨hp, rfl, by simp⟩
  | cons c cs ih =>
    obtain ⟨ho', hcls⟩ := ho.flushClass h c
    obtain ⟨hb, hl, henv, _⟩ := flushClass_linked cfg (s.sizes c) (s.heads c) s p
    obtain ⟨h1, h2, h3⟩ := ih (h.flushClass c) ho' hp
    have hmark : (flushClass cfg (s.sizes c) (s.heads c) s).oldestLive = s.oldestLive :=
      congrArg (·.2.1) henv
    refine ⟨hl h1, (time_of_body hb).symm.trans h2, fun hc => ?_⟩
    rw [← time_of_body hb]
    by_cases hpc : (s.mem p).slabsClsid = c
    · exact h.flushClass_older ho c h1 ((hcls p h1).trans hpc)
    · have hmem := (List.mem_cons.mp hc).resolve_left hpc
      rw [← hcls p h1] at hmem
      rw [← hmark]
      exact h3 hmem

/-- After `do_item_flush_expired` every stored item is older than the mark. -/
theorem StoreOk.flush_older (h : StoreOk cfg s held) (ho : OrderOk s) (h0 : s.oldestLive ≠ 0)
    {p : Ptr} (hp : ((doItemFlushExpired cfg s).mem p).linked = true) :
    ((doItemFlushExpired cfg s).mem p).time < s.oldestLive := by
  unfold doItemFlushExpired at hp ⊢
  rw [if_neg h0] at hp ⊢
  obtain ⟨_, h2, h3⟩ := flushClasses_older _ h ho p hp
  rw [← h2]
  exact h3 (List.mem_finRange _)

/-- An item older than the mark stays in its queue. -/
theorem StoreOk.flushClass_keeps (h : StoreOk cfg s held) (c : SlabId) {p : Ptr} (hp : (s.mem p).linked = true)
    (ht : (s.mem p).time < s.oldestLive) :
    ((RamCube.flushClass cfg (s.sizes c) (s.heads c) s).mem p).linked = true := by
  obtain ⟨live, lru, h⟩ := h
  obtain ⟨live', lru', h', h1, h2, _, hb⟩ := h.flushClass (le_of_eq (h.queues.sizes c).symm)
  have hm : p ∈ lru (s.mem p).slabsClsid := (h.queued _ p).mpr ⟨(h.table.linked p).mp hp, rfl⟩
  have hm' : p ∈ lru' (s.mem p).slabsClsid := by
    by_cases hc : (s.mem p).slabsClsid = c
    · rw [hc] at hm ⊢
      rw [h1]
      -- what the walk takes is not older than the mark
      have hsplit := List.takeWhile_append_dropWhile (p := fun q => decide (s.oldestLive ≤ (s.mem q).time)) (l := lru c)
      rw [← hsplit] at hm
      refine (List.mem_append.mp hm).resolve_left fun htake => ?_
      have hle := List.all_eq_true.mp List.all_takeWhile p htake
      exact UInt32.not_le.mpr ht (of_decide_eq_true hle)
    · rwa [h2 _ hc]
  exact (h'.table.linked p).mpr ((h'.queued _ p).mp hm').1

theorem StoreOk.flush_keeps (h : StoreOk cfg s held) {p : Ptr} (hp : (s.mem p).linked = true)
    (ht : (s.mem p).time < s.oldestLive) : ((doItemFlushExpired cfg s).mem p).linked = true := by
  unfold doItemFlushExpired
  split
  · exact hp
  · rename_i h0
    clear h0
    generalize List.finRange LARGEST_ID = classes
    induction classes generalizing s with
    | nil => exact hp
    | cons c cs ih =>
      obtain ⟨hb, _, henv, _⟩ := flushClass_linked cfg (s.sizes c) (s.heads c) s p
      have hmark : (RamCube.flushClass cfg (s.sizes c) (s.heads c) s).oldestLive = s.oldestLive := congrArg (·.2.1) henv
      refine ih (h.flushClass c) (h.flushClass_keeps c hp ht) ?_
      rwa [time_of_body hb, hmark]

/-- `do_item_flush_expired` unlinks the items that are not older than the mark. -/
theorem StoreOk.flush_linked_iff (h : StoreOk cfg s held) (ho : OrderOk s) (h0 : s.oldestLive ≠ 0) (p : Ptr) :
    ((doItemFlushExpired cfg s).mem p).linked = true ↔ (s.mem p).linked = true ∧ (s.mem p).time < s.oldestLive := by
  constructor
  · intro hp
    obtain ⟨hb, hl, _⟩ := flush_mem cfg s p
    exact ⟨hl hp, time_of_body hb ▸ h.flush_older ho h0 hp⟩
  · intro ⟨hp, ht⟩
    exact h.flush_keeps hp ht

end RamCube
