import RamCube.Store.ItemsOk

/-! # What the operations on items keep

Each operation of items.c, called as the commands call it, leads from a store in
order to a store in order. `held` follows the references of the caller. -/
namespace RamCube

variable {cfg : Settings} {s : Store} {it newIt : Ptr} {held : Ptr → Nat} {live : List Ptr}
  {lru : SlabId → List Ptr}

theorem StoreOk.find_iff (h : StoreOk cfg s held) {key : Bytes} {p : Ptr} :
    assocFind s.key s.assoc key (cfg.hash key) = some p ↔
      (s.mem p).linked = true ∧ s.key p = key := by
  obtain ⟨live, lru, h⟩ := h
  rw [h.table.linked]
  exact assocFind_eq_some h.table.assoc

theorem StoreOk.find_none (h : StoreOk cfg s held) {key : Bytes} :
    assocFind s.key s.assoc key (cfg.hash key) = none ↔
      ∀ p, (s.mem p).linked = true → s.key p ≠ key := by
  obtain ⟨live, lru, h⟩ := h
  have hn : assocFind s.key s.assoc key (cfg.hash key) = none ↔ ∀ x ∈ live, s.key x ≠ key :=
    assocFind_eq_none h.table.assoc
  simp only [hn, h.table.linked]

/-- No two stored items share a key. -/
theorem StoreOk.key_inj (h : StoreOk cfg s held) {p q : Ptr} (hp : (s.mem p).linked = true)
    (hq : (s.mem q).linked = true) (hk : s.key p = s.key q) : p = q := by
  obtain ⟨live, lru, h⟩ := h
  exact eq_of_keyOf_eq h.table.assoc.keys ((h.table.linked p).mp hp) ((h.table.linked q).mp hq) hk

theorem StoreOk.refcount_eq (h : StoreOk cfg s held) (p : Ptr) :
    (s.mem p).refcount = (if (s.mem p).linked then 1 else 0) + held p := by
  obtain ⟨live, lru, h⟩ := h
  rw [h.refs.refs]
  simp only [h.table.linked]

theorem StoreOk.refcount_pos (h : StoreOk cfg s held) {p : Ptr}
    (hp : (s.mem p).linked = true ∨ 0 < held p) : 0 < (s.mem p).refcount := by
  obtain ⟨live, lru, h⟩ := h
  exact h.refcount_pos (hp.imp (h.table.linked p).mp id)

theorem StoreOk.remove (h : StoreOk cfg s held) (hp : 0 < held it) :
    StoreOk cfg (doItemRemove cfg s it) (dropRef held it) := by
  obtain ⟨live, lru, h⟩ := h
  exact ⟨live, lru, h.remove hp⟩

theorem StoreOk.unlink (h : StoreOk cfg s held) (it : Ptr) :
    StoreOk cfg (doItemUnlinkNolock cfg s it (cfg.hash (s.key it))) held := by
  obtain ⟨live, lru, h⟩ := h
  by_cases hl : (s.mem it).linked = true
  · exact ⟨_, _, h.unlink ((h.table.linked it).mp hl)⟩
  · rw [doItemUnlinkNolock, if_neg hl]
    exact ⟨live, lru, h⟩

theorem StoreOk.link (h : StoreOk cfg s held) (hp : 0 < held it) (hl : (s.mem it).linked = false)
    (hk : assocFind s.key s.assoc (s.key it) (cfg.hash (s.key it)) = none) (hroom : Room cfg s it) :
    StoreOk cfg (doItemLink cfg s it (cfg.hash (s.key it))) held := by
  rw [h.find_none] at hk
  obtain ⟨live, lru, h⟩ := h
  refine ⟨_, _, h.link hp ?_ ?_ hroom⟩
  · rw [← h.table.linked, hl]
    simp
  · exact fun x hx => hk x ((h.table.linked x).mpr hx)

/-! ## What unlinking leaves alone -/

/-- The clock, the flush mark, the rebalanced range and the last `cas` unique. -/
def Store.env (s : Store) : UInt32 × UInt32 × Option (Ptr × Ptr) × UInt64 :=
  (s.currentTime, s.oldestLive, s.slabRebal, s.casId)

theorem env_itemFree (cfg : Settings) (s : Store) (it : Ptr) :
    (itemFree cfg s it).env = s.env ∧ (itemFree cfg s it).carved = s.carved := by
  obtain ⟨f, slots, he, _⟩ := slabsFree_mem cfg
    (s.modify it fun i => { i with slabsClsid := 0 }) it (s.mem it).slabsClsid
  unfold itemFree
  rw [he]
  exact ⟨rfl, rfl⟩

theorem env_doItemRemove (cfg : Settings) (s : Store) (it : Ptr) :
    (doItemRemove cfg s it).env = s.env ∧ (doItemRemove cfg s it).carved = s.carved := by
  unfold doItemRemove
  dsimp only
  split
  · exact env_itemFree cfg (refcountDecr cfg s it) it
  · exact ⟨rfl, rfl⟩

theorem env_unlink (cfg : Settings) (s : Store) (it : Ptr) (hv : UInt32) :
    (doItemUnlinkNolock cfg s it hv).env = s.env ∧
      (doItemUnlinkNolock cfg s it hv).carved = s.carved := by
  rw [doItemUnlinkNolock_eq]
  split
  · obtain ⟨_, hrest⟩ := itemUnlinkQ_rest { s.modify it fun i => { i with linked := false } with
      currBytes := _, currItems := _, assoc := _ } it
    obtain ⟨h1, h2⟩ := env_doItemRemove cfg (unlinkItem s it hv) it
    rw [h1, h2]
    unfold unlinkItem
    rw [hrest]
    exact ⟨rfl, rfl⟩
  · exact ⟨rfl, rfl⟩

theorem body_refcountDecr (cfg : Settings) (s : Store) (it p : Ptr) :
    ((refcountDecr cfg s it).mem p).body = (s.mem p).body :=
  modify_field Item.body rfl p

theorem itemFree_mem (cfg : Settings) (s : Store) (it p : Ptr) :
    ((itemFree cfg s it).mem p).body = (s.mem p).body ∧
      ((itemFree cfg s it).mem p).linked = (s.mem p).linked ∧
      ((itemFree cfg s it).mem p).refcount = (s.mem p).refcount := by
  obtain ⟨f, slots, he, ⟨b, n, q, hf⟩, _⟩ := slabsFree_mem cfg
    (s.modify it fun i => { i with slabsClsid := 0 }) it (s.mem it).slabsClsid
  unfold itemFree
  rw [he]
  have h : ∀ {β : Type} (g : Item → β), (∀ i b n q, g { i with
      slabbed := b, next := n, prev := q } = g i) → (∀ i, g { i with slabsClsid := 0 } = g i) →
      g (((s.modify it fun i => { i with slabsClsid := 0 }).modify it f).mem p) = g (s.mem p) := by
    intro β g h1 h2
    rw [modify_field g (by rw [hf, h1]), modify_field g (h2 _)]
  exact ⟨h Item.body (fun _ _ _ _ => rfl) fun _ => rfl, h (·.linked) (fun _ _ _ _ => rfl) fun _ => rfl,
    h (·.refcount) (fun _ _ _ _ => rfl) fun _ => rfl⟩

theorem doItemRemove_mem (cfg : Settings) (s : Store) (it p : Ptr) :
    ((doItemRemove cfg s it).mem p).body = (s.mem p).body ∧
      ((doItemRemove cfg s it).mem p).linked = (s.mem p).linked ∧
      ((doItemRemove cfg s it).mem p).refcount = ((refcountDecr cfg s it).mem p).refcount := by
  have hb := body_refcountDecr cfg s it p
  have hl : ((refcountDecr cfg s it).mem p).linked = (s.mem p).linked :=
    modify_field (·.linked) rfl p
  unfold doItemRemove
  dsimp only
  split
  · obtain ⟨h1, h2, h3⟩ := itemFree_mem cfg (refcountDecr cfg s it) it p
    exact ⟨h1.trans hb, h2.trans hl, h3⟩
  · exact ⟨hb, hl, rfl⟩

theorem unlinkItem_mem (s : Store) (it p : Ptr) (hv : UInt32) :
    ((unlinkItem s it hv).mem p).body = (s.mem p).body ∧
      ((unlinkItem s it hv).mem p).refcount = (s.mem p).refcount ∧
      ((unlinkItem s it hv).mem p).linked = ((s.mem p).linked && decide (p ≠ it)) := by
  obtain ⟨n, q, he⟩ := relinked_itemUnlinkQ { s.modify it fun i => { i with linked := false } with
    currBytes := _, currItems := _, assoc := _ } it p
  unfold unlinkItem
  rw [he]
  by_cases hp : p = it
  · subst hp
    simp [Item.body]
  · simp [modify_mem_of_ne hp, hp, Item.body]

/-- Unlinking an item clears its mark and changes no item's contents. -/
theorem unlink_mem (cfg : Settings) (s : Store) (it p : Ptr) (hv : UInt32) :
    ((doItemUnlinkNolock cfg s it hv).mem p).body = (s.mem p).body ∧
      ((doItemUnlinkNolock cfg s it hv).mem p).linked = ((s.mem p).linked && decide (p ≠ it)) ∧
      (p ≠ it → ((doItemUnlinkNolock cfg s it hv).mem p).refcount = (s.mem p).refcount) := by
  rw [doItemUnlinkNolock_eq]
  split
  · obtain ⟨h1, h2, h3⟩ := unlinkItem_mem s it p hv
    obtain ⟨r1, r2, r3⟩ := doItemRemove_mem cfg (unlinkItem s it hv) it p
    refine ⟨r1.trans h1, r2.trans h3, fun hp => ?_⟩
    rw [r3, refcountDecr, modify_mem_of_ne hp, h2]
  · rename_i hl
    refine ⟨rfl, ?_, fun _ => rfl⟩
    by_cases hp : p = it
    · subst hp
      simpa using hl
    · simp [hp]

theorem time_of_body {i j : Item} (h : i.body = j.body) : i.time = j.time := by
  change i.body.time = j.body.time
  rw [h]

/-! ## How the queues move -/

theorem LruOk.unique {lru' : SlabId → List Ptr} (h : LruOk s.mem s.heads s.tails s.sizes lru)
    (h' : LruOk s.mem s.heads s.tails s.sizes lru') : lru = lru' :=
  funext fun c => (h.list c).unique (h'.list c)

/-- Where the items of a queue come from: the older ones keep their order and their time,
those before them were put in front just now. -/
def QueueMoved (s s' : Store) (l l' : List Ptr) : Prop :=
  ∃ front rest, l' = front ++ rest ∧ rest.Sublist l ∧
    (∀ q ∈ front, (s'.mem q).time = s'.currentTime) ∧ ∀ q ∈ rest, (s'.mem q).time = (s.mem q).time

def QueuesMoved (s s' : Store) : Prop :=
  ∀ lru, LruOk s.mem s.heads s.tails s.sizes lru →
    ∃ lru', LruOk s'.mem s'.heads s'.tails s'.sizes lru' ∧ ∀ c, QueueMoved s s' (lru c) (lru' c)

theorem QueueMoved.of_sublist {s s' : Store} {l l' : List Ptr} (h : l'.Sublist l)
    (ht : ∀ q ∈ l, (s'.mem q).time = (s.mem q).time) : QueueMoved s s' l l' :=
  ⟨[], l', rfl, h, by simp, fun q hq => ht q (h.subset hq)⟩

theorem QueueMoved.trans {s₁ s₂ s₃ : Store} {l₁ l₂ l₃ : List Ptr} (h : QueueMoved s₁ s₂ l₁ l₂)
    (h' : QueueMoved s₂ s₃ l₂ l₃) (hnow : s₃.currentTime = s₂.currentTime) :
    QueueMoved s₁ s₃ l₁ l₃ := by
  obtain ⟨f, r, rfl, hr, hf, hrt⟩ := h
  obtain ⟨f', r', rfl, hr', hf', hrt'⟩ := h'
  obtain ⟨a, b, rfl, ha, hb⟩ := List.sublist_append_iff.mp hr'
  refine ⟨f' ++ a, b, by rw [List.append_assoc], hb.trans hr, fun q hq => ?_, fun q hq => ?_⟩
  · rcases List.mem_append.mp hq with hq | hq
    · exact hf' q hq
    · rw [hrt' q (List.mem_append_left _ hq), hf q (ha.subset hq), hnow]
  · rw [hrt' q (List.mem_append_right _ hq), hrt q (hb.subset hq)]

theorem QueuesMoved.trans {s₁ s₂ s₃ : Store} (h : QueuesMoved s₁ s₂) (h' : QueuesMoved s₂ s₃)
    (hnow : s₃.currentTime = s₂.currentTime) : QueuesMoved s₁ s₃ := by
  intro lru hl
  obtain ⟨lru₂, hl₂, hm⟩ := h lru hl
  obtain ⟨lru₃, hl₃, hm'⟩ := h' lru₂ hl₂
  exact ⟨lru₃, hl₃, fun c => (hm c).trans (hm' c) hnow⟩

/-- The queues before and after are known. -/
theorem QueuesMoved.of_queues {s s' : Store} {lru' : SlabId → List Ptr}
    (h : LruOk s.mem s.heads s.tails s.sizes lru)
    (h' : LruOk s'.mem s'.heads s'.tails s'.sizes lru')
    (hm : ∀ c, QueueMoved s s' (lru c) (lru' c)) : QueuesMoved s s' := by
  intro lru₁ h₁
  rw [← h.unique h₁]
  exact ⟨lru', h', hm⟩

theorem QueuesMoved.of_same {s s' : Store} (h : LruOk s.mem s.heads s.tails s.sizes lru)
    (h' : LruOk s'.mem s'.heads s'.tails s'.sizes lru)
    (ht : ∀ c, ∀ q ∈ lru c, (s'.mem q).time = (s.mem q).time) : QueuesMoved s s' :=
  .of_queues h h' fun c => .of_sublist (List.Sublist.refl _) (ht c)

theorem update_erase_sublist (lru : SlabId → List Ptr) (c : SlabId) (p : Ptr) (c' : SlabId) :
    (Function.update lru c ((lru c).erase p) c').Sublist (lru c') := by
  by_cases hc : c' = c
  · subst hc
    rw [Function.update_self]
    exact List.erase_sublist
  · rw [Function.update_of_ne hc]

theorem StoreOk.moved_unlink (h : StoreOk cfg s held) (it : Ptr) :
    QueuesMoved s (doItemUnlinkNolock cfg s it (cfg.hash (s.key it))) := by
  obtain ⟨live, lru, h⟩ := h
  by_cases hl : (s.mem it).linked = true
  · exact .of_queues h.queues (h.unlink ((h.table.linked it).mp hl)).queues fun c =>
      .of_sublist (update_erase_sublist lru _ it c) fun q _ =>
        time_of_body (unlink_mem cfg s it q _).1
  · rw [doItemUnlinkNolock, if_neg hl]
    exact .of_same h.queues h.queues fun _ _ _ => rfl

theorem StoreOk.moved_incr (h : StoreOk cfg s held) (hpos : 0 < (s.mem it).refcount)
    (hroom : Room cfg s it) : QueuesMoved s (refcountIncr cfg s it) := by
  obtain ⟨live, lru, h⟩ := h
  exact .of_same h.queues (h.incr hpos hroom).queues fun _ q _ => modify_field (·.time) rfl q

theorem StoreOk.moved_decr (h : StoreOk cfg s held) (hp : 0 < held it) :
    QueuesMoved s (refcountDecr cfg s it) := by
  obtain ⟨live, lru, h⟩ := h
  exact .of_same h.queues (h.decr hp).queues fun _ q _ => modify_field (·.time) rfl q

theorem StoreOk.moved_remove (h : StoreOk cfg s held) (hp : 0 < held it) :
    QueuesMoved s (doItemRemove cfg s it) := by
  obtain ⟨live, lru, h⟩ := h
  exact .of_same h.queues (h.remove hp).queues fun _ q _ =>
    time_of_body (doItemRemove_mem cfg s it q).1

theorem key_of_body {i j : Item} (h : i.body = j.body) : itemKey i = itemKey j := by
  have h1 : i.body.nkey = j.body.nkey := congrArg Item.nkey h
  have h2 : i.body.bytes = j.body.bytes := congrArg Item.bytes h
  change slice i.body.bytes 0 i.body.nkey = slice j.body.bytes 0 j.body.nkey
  rw [h1, h2]

theorem StoreOk.replace (h : StoreOk cfg s held) (hn : 0 < held newIt)
    (hl : (s.mem newIt).linked = false) (hk : s.key it = s.key newIt)
    (hit : (s.mem it).linked = true) (hroom : Room cfg s newIt) :
    StoreOk cfg (doItemReplace cfg s it newIt (cfg.hash (s.key it))) held := by
  have hne : newIt ≠ it := by
    rintro rfl
    rw [hit] at hl
    cases hl
  have hu := h.unlink it
  have hm := fun p => unlink_mem cfg s it p (cfg.hash (s.key it))
  have hkey : ∀ p, (doItemUnlinkNolock cfg s it (cfg.hash (s.key it))).key p = s.key p :=
    fun p => key_of_body (hm p).1
  unfold doItemReplace doItemUnlink
  have hkn : cfg.hash (s.key it) =
      cfg.hash ((doItemUnlinkNolock cfg s it (cfg.hash (s.key it))).key newIt) := by
    rw [hkey, hk]
  rw [show doItemLink cfg (doItemUnlinkNolock cfg s it (cfg.hash (s.key it))) newIt
      (cfg.hash (s.key it)) = doItemLink cfg (doItemUnlinkNolock cfg s it (cfg.hash (s.key it))) newIt
      (cfg.hash ((doItemUnlinkNolock cfg s it (cfg.hash (s.key it))).key newIt)) by rw [← hkn]]
  refine hu.link hn ?_ ?_ ?_
  · rw [(hm newIt).2.1, hl]
    rfl
  · rw [hu.find_none]
    intro p hp hpk
    rw [(hm p).2.1, Bool.and_eq_true, decide_eq_true_eq] at hp
    rw [hkey, hkey, ← hk] at hpk
    exact hp.2 (h.key_inj hp.1 hit hpk)
  · unfold Room at hroom ⊢
    rwa [(hm newIt).2.2 hne]

/-! ## Moving an item to the front of its queue -/

/-- `do_item_update` of an item that is stored and was not moved lately. -/
def moveToHead (s : Store) (it : Ptr) : Store :=
  let s := itemUnlinkQ s it
  itemLinkQ (s.modify it fun i => { i with time := s.currentTime }) it

theorem doItemUpdate_cases (s : Store) (it : Ptr) :
    doItemUpdate s it = s ∨ (s.mem it).linked = true ∧ doItemUpdate s it = moveToHead s it := by
  unfold doItemUpdate
  split
  · split
    · rename_i hl
      exact .inr ⟨hl, rfl⟩
    · exact .inl rfl
  · exact .inl rfl

theorem moveToHead_rest (s : Store) (it : Ptr) :
    (moveToHead s it).currentTime = s.currentTime ∧ (moveToHead s it).assoc = s.assoc ∧
      (moveToHead s it).currItems = s.currItems ∧ (moveToHead s it).currBytes = s.currBytes ∧
      (moveToHead s it).slots = s.slots ∧ (moveToHead s it).carved = s.carved := by
  unfold moveToHead
  dsimp only
  obtain ⟨_, hunlink⟩ := itemUnlinkQ_rest s it
  generalize itemUnlinkQ s it = s1 at hunlink ⊢
  obtain ⟨_, hlink⟩ := itemLinkQ_rest (s1.modify it fun i => { i with time := s1.currentTime }) it
  rw [hlink, hunlink]
  exact ⟨rfl, rfl, rfl, rfl, rfl, rfl⟩

/-- A field that is no link and no time stays. -/
theorem moveToHead_field {β : Type} (g : Item → β) (hg : ∀ i n q, g { i with next := n, prev := q } = g i)
    (ht : ∀ i t, g { i with time := t } = g i) (p : Ptr) : g ((moveToHead s it).mem p) = g (s.mem p) := by
  unfold moveToHead
  dsimp only
  obtain ⟨n, q, he⟩ := relinked_itemUnlinkQ s it p
  generalize itemUnlinkQ s it = s1 at he ⊢
  obtain ⟨n', q', he'⟩ := relinked_itemLinkQ (s1.modify it fun i => { i with time := s1.currentTime }) it p
  rw [he', hg, modify_field g (ht _ _), he, hg]

theorem moveToHead_time (s : Store) (it p : Ptr) :
    ((moveToHead s it).mem p).time = if p = it then s.currentTime else (s.mem p).time := by
  have hnow : (itemUnlinkQ s it).currentTime = s.currentTime := by
    obtain ⟨_, hunlink⟩ := itemUnlinkQ_rest s it
    rw [hunlink]
  unfold moveToHead
  dsimp only
  obtain ⟨n, q, he⟩ := relinked_itemUnlinkQ s it p
  generalize itemUnlinkQ s it = s1 at hnow he ⊢
  obtain ⟨n', q', he'⟩ := relinked_itemLinkQ (s1.modify it fun i => { i with time := s1.currentTime }) it p
  rw [he']
  split
  · rename_i hp
    rw [hp, modify_mem_self]
    exact hnow
  · rename_i hp
    rw [modify_mem_of_ne hp, he]

/-- The queues, with the item at the head of its own. -/
def movedQueues (s : Store) (lru : SlabId → List Ptr) (it : Ptr) : SlabId → List Ptr :=
  Function.update lru (s.mem it).slabsClsid (it :: (lru (s.mem it).slabsClsid).erase it)

theorem moveToHead_queues (h : ItemsOk cfg s held live lru) (hl : (s.mem it).linked = true) :
    LruOk (moveToHead s it).mem (moveToHead s it).heads (moveToHead s it).tails (moveToHead s it).sizes (movedQueues s lru it) := by
  have hit : it ∈ lru (s.mem it).slabsClsid := (h.live_iff it).mp ((h.table.linked it).mp hl)
  have hu := h.queues.unlink hit
  have hrel := relinked_itemUnlinkQ s it
  unfold moveToHead
  dsimp only
  generalize itemUnlinkQ s it = s1 at hu hrel ⊢
  have hcls : ((s1.modify it fun i => { i with time := s1.currentTime }).mem it).slabsClsid = (s.mem it).slabsClsid := by
    obtain ⟨n, q, he⟩ := hrel it
    rw [modify_field (·.slabsClsid) rfl, he]
  have hq : LruOk (s1.modify it fun i => { i with time := s1.currentTime }).mem
      (s1.modify it fun i => { i with time := s1.currentTime }).heads
      (s1.modify it fun i => { i with time := s1.currentTime }).tails
      (s1.modify it fun i => { i with time := s1.currentTime }).sizes _ :=
    hu.congr fun c p _ => ⟨modify_field (·.next) rfl p, modify_field (·.prev) rfl p, modify_field (·.slabsClsid) rfl p⟩
  have hout : ∀ c, it ∉ Function.update lru (s.mem it).slabsClsid ((lru (s.mem it).slabsClsid).erase it) c := by
    intro c hm
    by_cases hc : c = (s.mem it).slabsClsid
    · subst hc
      rw [Function.update_self] at hm
      exact ((h.queues.list _).nodup.mem_erase_iff.mp hm).1 rfl
    · rw [Function.update_of_ne hc] at hm
      exact hc ((h.queues.cls c it hm).symm)
  have hlru := hq.link hout
  rwa [hcls, Function.update_idem, Function.update_self] at hlru

/-- What is queued stays queued. -/
theorem mem_movedQueues (h : ItemsOk cfg s held live lru) (hl : (s.mem it).linked = true) {c : SlabId} {p : Ptr} :
    p ∈ movedQueues s lru it c ↔ p ∈ live ∧ (s.mem p).slabsClsid = c := by
  unfold movedQueues
  by_cases hc : c = (s.mem it).slabsClsid
  · subst hc
    rw [Function.update_self, List.mem_cons, (h.queues.list _).nodup.mem_erase_iff, h.queued]
    constructor
    · rintro (rfl | ⟨_, hm⟩)
      · exact ⟨(h.table.linked p).mp hl, rfl⟩
      · exact hm
    · intro hm
      by_cases he : p = it
      · exact .inl he
      · exact .inr ⟨he, hm⟩
  · rw [Function.update_of_ne hc, h.queued]

theorem moveToHead_moved (h : ItemsOk cfg s held live lru) (it : Ptr) (c : SlabId) :
    QueueMoved s (moveToHead s it) (lru c) (movedQueues s lru it c) := by
  have hold : ∀ q, q ≠ it → ((moveToHead s it).mem q).time = (s.mem q).time := fun q hq => by
    rw [moveToHead_time, if_neg hq]
  unfold movedQueues
  by_cases hc : c = (s.mem it).slabsClsid
  · subst hc
    rw [Function.update_self]
    refine ⟨[it], _, rfl, List.erase_sublist, fun q hq => ?_, fun q hq => ?_⟩
    · rw [moveToHead_time, if_pos (List.mem_singleton.mp hq), (moveToHead_rest s it).1]
    · exact hold q ((h.queues.list _).nodup.mem_erase_iff.mp hq).1
  · rw [Function.update_of_ne hc]
    refine .of_sublist (List.Sublist.refl _) fun q hq => hold q fun he => hc ?_
    rw [← he, h.queues.cls c q hq]

theorem ItemsOk.moveToHead (h : ItemsOk cfg s held live lru) (hl : (s.mem it).linked = true) :
    ItemsOk cfg (moveToHead s it) held live (movedQueues s lru it) := by
  obtain ⟨_, hassoc, hitems, hbytes, hslots, hcarved⟩ := moveToHead_rest s it
  have hrefcount : ∀ p, ((RamCube.moveToHead s it).mem p).refcount = (s.mem p).refcount :=
    moveToHead_field (·.refcount) (fun _ _ _ => rfl) fun _ _ => rfl
  refine ⟨?_, ?_, moveToHead_queues h hl, fun c p => ?_, h.refs.congr hrefcount, ?_⟩
  · rw [hassoc]
    exact h.table.congr (fun p _ => moveToHead_field itemKey (fun _ _ _ => rfl) (fun _ _ => rfl) p)
      (moveToHead_field (·.linked) (fun _ _ _ => rfl) fun _ _ => rfl)
  · rw [hitems, hbytes]
    exact h.count.congr fun p _ => moveToHead_field itemNtotal (fun _ _ _ => rfl) (fun _ _ => rfl) p
  · rw [moveToHead_field (·.slabsClsid) (fun _ _ _ => rfl) fun _ _ => rfl]
    exact mem_movedQueues h hl
  · rw [hslots, hcarved]
    exact h.chunks.congr hrefcount fun p _ => moveToHead_field (·.slabbed) (fun _ _ _ => rfl) (fun _ _ => rfl) p

theorem ItemsOk.update (h : ItemsOk cfg s held live lru) (it : Ptr) :
    ∃ lru', ItemsOk cfg (doItemUpdate s it) held live lru' ∧
      ∀ c, QueueMoved s (doItemUpdate s it) (lru c) (lru' c) := by
  rcases doItemUpdate_cases s it with he | ⟨hl, he⟩
  · rw [he]
    exact ⟨lru, h, fun c => .of_sublist (List.Sublist.refl _) fun _ _ => rfl⟩
  · rw [he]
    exact ⟨movedQueues s lru it, h.moveToHead hl, moveToHead_moved h it⟩

theorem StoreOk.update (h : StoreOk cfg s held) (it : Ptr) :
    StoreOk cfg (doItemUpdate s it) held := by
  obtain ⟨live, lru, h⟩ := h
  obtain ⟨lru', h', _⟩ := h.update it
  exact ⟨live, lru', h'⟩

theorem StoreOk.moved_update (h : StoreOk cfg s held) (it : Ptr) :
    QueuesMoved s (doItemUpdate s it) := by
  obtain ⟨live, lru, h⟩ := h
  obtain ⟨lru', h', hm⟩ := h.update it
  exact .of_queues h.queues h'.queues hm

/-! ## Lookup -/

theorem StoreOk.incr (h : StoreOk cfg s held) (hpos : 0 < (s.mem it).refcount)
    (hroom : Room cfg s it) : StoreOk cfg (refcountIncr cfg s it) (addRef held it) := by
  obtain ⟨live, lru, h⟩ := h
  exact ⟨live, lru, h.incr hpos hroom⟩

/-- A change to one item that leaves its key, its length, its marks and its counts alone. -/
theorem StoreOk.modify (h : StoreOk cfg s held) {f : Item → Item}
    (hk : (s.mem it).linked = true → itemKey (f (s.mem it)) = itemKey (s.mem it) ∧
      itemNtotal (f (s.mem it)) = itemNtotal (s.mem it) ∧
      (f (s.mem it)).next = (s.mem it).next ∧ (f (s.mem it)).prev = (s.mem it).prev ∧
      (f (s.mem it)).slabsClsid = (s.mem it).slabsClsid)
    (hl : (f (s.mem it)).linked = (s.mem it).linked)
    (hr : (f (s.mem it)).refcount = (s.mem it).refcount)
    (hs : 0 < (s.mem it).refcount → (f (s.mem it)).slabbed = (s.mem it).slabbed) :
    StoreOk cfg (s.modify it f) held := by
  obtain ⟨live, lru, h⟩ := h
  exact ⟨live, lru, h.modify (fun hm => hk ((h.table.linked it).mpr hm)) hl hr hs⟩

theorem key_refcountIncr (cfg : Settings) (s : Store) (it p : Ptr) :
    (refcountIncr cfg s it).key p = s.key p :=
  modify_field itemKey rfl p

/-- A reference just taken is given back after the item is unlinked. -/
theorem StoreOk.incr_unlink_remove (h : StoreOk cfg s held) (hl : (s.mem it).linked = true)
    (hroom : Room cfg s it) :
    StoreOk cfg (doItemRemove cfg (doItemUnlinkNolock cfg (refcountIncr cfg s it) it
      (cfg.hash (s.key it))) it) held := by
  have hi := h.incr (h.refcount_pos (.inl hl)) hroom
  have hu := hi.unlink it
  rw [key_refcountIncr] at hu
  have hr := hu.remove (show 0 < addRef held it it by simp [addRef])
  rwa [dropRef_addRef] at hr

/-- `do_item_get` hands out one more reference to the item it returns. -/
theorem StoreOk.get (h : StoreOk cfg s held) {key : Bytes}
    (hroom : ∀ p, (s.mem p).linked = true → s.key p = key → Room cfg s p) :
    StoreOk cfg (doItemGet cfg s key (cfg.hash key)).1
      (match (doItemGet cfg s key (cfg.hash key)).2 with
        | none => held
        | some it => addRef held it) := by
  unfold doItemGet
  cases hf : assocFind s.key s.assoc key (cfg.hash key) with
  | none => exact h
  | some it =>
    obtain ⟨hl, rfl⟩ := h.find_iff.mp hf
    have hr := hroom it hl rfl
    dsimp only
    split
    · exact h.incr_unlink_remove hl hr
    · split
      · exact h.incr_unlink_remove hl hr
      · have hi := h.incr (h.refcount_pos (.inl hl)) hr
        exact hi.modify (f := fun i => { i with fetched := true })
          (fun _ => ⟨rfl, rfl, rfl, rfl, rfl⟩) rfl rfl fun _ => rfl

/-! ## Allocation -/

theorem refMod_room (cfg : Settings) {r : Nat} (h : r + 1 < 2 ^ 16) :
    cfg.refMod = 0 ∨ r + 1 < cfg.refMod :=
  cfg.counts.imp id fun he => by rw [he]; exact h

theorem StoreOk.room (h : StoreOk cfg s held) (p : Ptr) :
    cfg.refMod = 0 ∨ (s.mem p).refcount < cfg.refMod := by
  obtain ⟨live, lru, h⟩ := h
  exact h.refs.room.imp id fun hb => hb p

/-- Counting up and down again, wrapped or not, is no change. -/
theorem refcountDecr_incr (h : StoreOk cfg s held) (it : Ptr) :
    refcountDecr cfg (refcountIncr cfg s it) it = s := by
  have hr := h.room it
  have hm : ((s.mem it).refcount + 1) % cfg.refMod + cfg.refMod - 1 =
      (s.mem it).refcount + cfg.refMod ∨ ((s.mem it).refcount + 1) % cfg.refMod + cfg.refMod - 1 =
      (s.mem it).refcount := by
    rcases cfg.counts with h0 | h0
    · simp [h0]
    · rw [h0] at hr ⊢
      omega
  have he : (((s.mem it).refcount + 1) % cfg.refMod + cfg.refMod - 1) % cfg.refMod =
      (s.mem it).refcount := by
    rcases cfg.counts with h0 | h0
    · simp [h0]
    · rw [h0] at hr hm ⊢
      omega
  unfold refcountDecr refcountIncr Store.modify
  simp only [Function.update_self, Function.update_idem, he]
  rw [Function.update_eq_self]

theorem refcountIncr_eq_two (h : StoreOk cfg s held) (it : Ptr) :
    ((refcountIncr cfg s it).mem it).refcount = 2 ↔ (s.mem it).refcount = 1 := by
  have hr := h.room it
  simp only [refcountIncr, modify_mem_self]
  rcases cfg.counts with h0 | h0
  · rw [h0, Nat.mod_zero]
    omega
  · rw [h0] at hr ⊢
    omega

/-- Does the allocation loop meet an item it repairs: one whose count says it is
referred to, but that nobody has touched for `TAIL_REPAIR_TIME`? -/
def tailRepairFires (cfg : Settings) (env : AllocEnv) (curHv : UInt32) (s : Store) :
    Nat → Option Ptr → Bool
  | 0, _ => false
  | _ + 1, none => false
  | tries + 1, some search =>
    let hv := cfg.hash (s.key search)
    if hv ≠ curHv ∧ env.trylock hv = false then
      tailRepairFires cfg env curHv s tries (s.mem search).prev
    else if (s.mem search).refcount ≠ 1 then
      decide ((s.mem search).time + TAIL_REPAIR_TIME < s.currentTime) ||
        tailRepairFires cfg env curHv s tries (s.mem search).prev
    else false

/-- The item at which the allocation loop stops, when it repairs none: the first one
on its way that nobody else refers to. -/
def searchStop (cfg : Settings) (env : AllocEnv) (curHv : UInt32) (s : Store) :
    Nat → Option Ptr → Option Ptr
  | 0, _ => none
  | _ + 1, none => none
  | tries + 1, some search =>
    let hv := cfg.hash (s.key search)
    if hv ≠ curHv ∧ env.trylock hv = false then
      searchStop cfg env curHv s tries (s.mem search).prev
    else if (s.mem search).refcount ≠ 1 then searchStop cfg env curHv s tries (s.mem search).prev
    else some search

/-- What the loop does with the item it stops at. -/
def searchAt (cfg : Settings) (env : AllocEnv) (id : SlabId) (s : Store) (search : Ptr) :
    Store × Search :=
  let hv := cfg.hash (s.key search)
  let s := refcountIncr cfg s search
  let (s, r) :=
    if expiredOrFlushed s (s.mem search) then
      (takeChunk cfg s search hv, Search.taken search)
    else match slabsAlloc s id env.newslab with
      | (s, some it) => (s, .taken it)
      | (s, none) =>
        if cfg.evictToFree then (takeChunk cfg s search hv, .taken search)
        else (s, .outOfMemory)
  (refcountDecr cfg s search, r)

/-- Items in use are passed over without a trace. -/
theorem allocSearch_eq (h : StoreOk cfg s held) (env : AllocEnv) (id : SlabId) (curHv : UInt32)
    (tries : Nat) (search : Option Ptr)
    (hr : tailRepairFires cfg env curHv s tries search = false) :
    allocSearch cfg env id curHv tries search s =
      match searchStop cfg env curHv s tries search with
      | none => (s, .exhausted)
      | some search => searchAt cfg env id s search := by
  induction tries generalizing search with
  | zero => rfl
  | succ tries ih =>
    cases search with
    | none => rfl
    | some search =>
      simp only [tailRepairFires] at hr
      simp only [allocSearch, searchStop]
      split
      · rename_i hlock
        rw [if_pos hlock] at hr
        exact ih _ hr
      · rename_i hlock
        rw [if_neg hlock] at hr
        by_cases h1 : (s.mem search).refcount = 1
        · rw [if_neg (not_not.mpr ((refcountIncr_eq_two h search).mpr h1)),
            if_neg (not_not.mpr h1)]
          rfl
        · rw [if_pos h1, Bool.or_eq_false_iff, decide_eq_false_iff_not] at hr
          rw [if_pos (fun he => h1 ((refcountIncr_eq_two h search).mp he)), if_pos h1,
            refcountDecr_incr h, if_neg hr.1]
          exact ih _ hr.2

/-- A chunk outside every structure, ready to be filled in. -/
structure ChunkReady (s : Store) (it : Ptr) : Prop where
  free : (s.mem it).refcount = 0
  known : it ∈ s.carved
  off : ∀ c, it ∉ s.slots c

/-- A page of at least one chunk, none of them part of a page before. -/
def FreshPage (s : Store) (newslab : Option (List Ptr)) : Prop :=
  ∀ page ∈ newslab, page ≠ [] ∧ page.Nodup ∧ ∀ p ∈ page, p ∉ s.carved

theorem ItemsOk.newslab (h : ItemsOk cfg s held live lru) {page : List Ptr} (id : SlabId)
    (hnd : page.Nodup) (hnew : ∀ p ∈ page, p ∉ s.carved) :
    ItemsOk cfg (slabsNewslab s id page) held live lru := by
  have hzero : ∀ p ∈ page, (s.mem p).refcount = 0 := fun p hp => h.chunks.fresh p (hnew p hp)
  have hout : ∀ p ∈ page, p ∉ live ∧ held p = 0 := by
    intro p hp
    have h0 := h.refs.refs p
    rw [hzero p hp] at h0
    by_cases hl : p ∈ live
    · rw [if_pos hl] at h0
      omega
    · rw [if_neg hl] at h0
      exact ⟨hl, by omega⟩
  have hkeep : ∀ p ∈ live, (slabsNewslab s id page).mem p = s.mem p := by
    intro p hp
    exact if_neg fun hm => (hout p hm).1 hp
  have hmem : ∀ p, (slabsNewslab s id page).mem p = if p ∈ page then emptyItem else s.mem p :=
    fun _ => rfl
  have hrc : ∀ p, ((slabsNewslab s id page).mem p).refcount = (s.mem p).refcount := by
    intro p
    rw [hmem]
    split
    · rename_i hm
      exact (hzero p hm).symm
    · rfl
  have hslots : ∀ c p, p ∈ (slabsNewslab s id page).slots c ↔ p ∈ s.slots c ∨ (p ∈ page ∧ c = id) := by
    intro c p
    by_cases hc : c = id
    · subst hc
      simp [slabsNewslab, or_comm]
    · simp [slabsNewslab, hc]
  constructor
  · refine h.table.congr (fun p hp => by rw [hkeep p hp]) fun p => ?_
    rw [hmem]
    split
    · rename_i hm
      have := (not_congr (h.table.linked p)).mpr (hout p hm).1
      rw [Bool.eq_false_iff.mpr this]
      rfl
    · rfl
  · exact h.count.congr fun p hp => by rw [hkeep p hp]
  · refine h.queues.congr fun c p hp => ?_
    rw [hkeep p ((h.queued c p).mp hp).1]
    exact ⟨rfl, rfl, rfl⟩
  · intro c p
    rw [h.queued]
    exact and_congr_right fun hp => by rw [hkeep p hp]
  · exact h.refs.congr hrc
  · constructor
    · intro c
      by_cases hc : c = id
      · subst hc
        have hd : ∀ a ∈ page.reverse, ∀ b ∈ s.slots c, a ≠ b := by
          rintro a ha b hb rfl
          exact hnew a (List.mem_reverse.mp ha) (h.chunks.known c a hb)
        simpa [slabsNewslab] using
          List.nodup_append.mpr ⟨List.nodup_reverse.mpr hnd, h.chunks.nodup c, hd⟩
      · simpa [slabsNewslab, hc] using h.chunks.nodup c
    · intro c c' p hp hp'
      rw [hslots] at hp hp'
      rcases hp with hp | ⟨hp, rfl⟩ <;> rcases hp' with hp' | ⟨hp', rfl⟩
      · exact h.chunks.disjoint c c' p hp hp'
      · exact absurd (h.chunks.known c p hp) (hnew p hp')
      · exact absurd (h.chunks.known c' p hp') (hnew p hp)
      · rfl
    · intro c p hp
      rcases (hslots c p).mp hp with hp | ⟨hp, _⟩
      · exact List.mem_append_right _ (h.chunks.known c p hp)
      · exact List.mem_append_left _ hp
    · intro c p hp
      rw [hrc]
      rcases (hslots c p).mp hp with hp | ⟨hp, _⟩
      · exact h.chunks.free c p hp
      · exact hzero p hp
    · intro p hp
      rw [hrc]
      exact h.chunks.fresh p fun hm => hp (List.mem_append_right _ hm)
    · intro p hp
      rw [hrc] at hp
      rw [hmem, if_neg fun hm => by rw [hzero p hm] at hp; omega]
      exact h.chunks.busy p hp

/-- The first chunk of a free list is taken off it. -/
theorem ItemsOk.pop (h : ItemsOk cfg s held live lru) {id : SlabId} {rest : List Ptr}
    (hs : s.slots id = it :: rest) :
    ItemsOk cfg { s with slots := Function.update s.slots id rest } held live lru ∧
      ChunkReady { s with slots := Function.update s.slots id rest } it := by
  have hnd := h.chunks.nodup id
  rw [hs] at hnd
  obtain ⟨hit, hrest⟩ := List.nodup_cons.mp hnd
  have hsub : ∀ c, ∀ p ∈ Function.update s.slots id rest c, p ∈ s.slots c := by
    intro c p hp
    by_cases hc : c = id
    · subst hc
      rw [Function.update_self] at hp
      rw [hs]
      exact List.mem_cons_of_mem _ hp
    · rwa [Function.update_of_ne hc] at hp
  have hmem : it ∈ s.slots id := by simp [hs]
  refine ⟨⟨h.table, h.count, h.queues, h.queued, h.refs, ?_⟩, ?_⟩
  · constructor
    · intro c
      by_cases hc : c = id
      · subst hc
        simpa using hrest
      · simpa [hc] using h.chunks.nodup c
    · intro c c' p hp hp'
      exact h.chunks.disjoint c c' p (hsub c p hp) (hsub c' p hp')
    · exact fun c p hp => h.chunks.known c p (hsub c p hp)
    · exact fun c p hp => h.chunks.free c p (hsub c p hp)
    · exact h.chunks.fresh
    · exact h.chunks.busy
  · refine ⟨h.chunks.free id it hmem, h.chunks.known id it hmem, fun c hc => ?_⟩
    by_cases hcid : c = id
    · subst hcid
      exact hit (by simpa using hc)
    · exact hcid (h.chunks.disjoint c id it (hsub c it hc) hmem)

/-- `slabs_alloc` fails without a trace or hands out a chunk outside every structure.
Chunks in use keep their contents. -/
theorem slabsAlloc_spec (h : StoreOk cfg s held) (id : SlabId) {newslab : Option (List Ptr)}
    (hf : FreshPage s newslab) :
    match (slabsAlloc s id newslab).2 with
    | none => (slabsAlloc s id newslab).1 = s
    | some it => StoreOk cfg (slabsAlloc s id newslab).1 held ∧
        ChunkReady (slabsAlloc s id newslab).1 it ∧ (s.mem it).refcount = 0 ∧
        (∀ p, p ∈ s.carved → (slabsAlloc s id newslab).1.mem p = s.mem p) ∧
        ∀ p, ((slabsAlloc s id newslab).1.mem p).linked = (s.mem p).linked := by
  obtain ⟨live, lru, h⟩ := h
  cases hs : s.slots id with
  | cons it rest =>
    have he : slabsAlloc s id newslab =
        ({ s with slots := Function.update s.slots id rest }, some it) := by
      simp only [slabsAlloc, hs]
    rw [he]
    obtain ⟨hp, hready⟩ := h.pop hs
    exact ⟨⟨live, lru, hp⟩, hready, hready.free, fun _ _ => rfl, fun _ => rfl⟩
  | nil =>
    cases newslab with
    | none =>
      have he : slabsAlloc s id none = (s, none) := by simp only [slabsAlloc, hs]
      rw [he]
    | some page =>
      obtain ⟨hne, hnd, hnew⟩ := hf page rfl
      have hslots : (slabsNewslab s id page).slots id = page.reverse := by
        simp [slabsNewslab, hs]
      have hn := h.newslab id hnd hnew
      cases hrev : page.reverse with
      | nil => exact absurd (List.reverse_eq_nil_iff.mp hrev) hne
      | cons it rest =>
        rw [hrev] at hslots
        have he : slabsAlloc s id (some page) = ({ slabsNewslab s id page with
            slots := Function.update (slabsNewslab s id page).slots id rest }, some it) := by
          simp only [slabsAlloc, hs, hslots]
        rw [he]
        obtain ⟨hp, hready⟩ := hn.pop hslots
        have hit : it ∈ page := by
          rw [← List.mem_reverse, hrev]
          exact List.mem_cons_self
        refine ⟨⟨live, lru, hp⟩, hready, h.chunks.fresh it (hnew it hit), fun p hp => ?_, fun p => ?_⟩
        · exact if_neg fun hm => hnew p hm hp
        · rw [Bool.eq_iff_iff, hp.table.linked, h.table.linked]

theorem ChunkReady.modify_of_ne {p : Ptr} (h : ChunkReady s it) (hp : it ≠ p) {f : Item → Item} :
    ChunkReady (s.modify p f) it :=
  ⟨by rw [modify_mem_of_ne hp]; exact h.free, h.known, h.off⟩

theorem StoreOk.decr (h : StoreOk cfg s held) (hp : 0 < held it) :
    StoreOk cfg (refcountDecr cfg s it) (dropRef held it) := by
  obtain ⟨live, lru, h⟩ := h
  exact ⟨live, lru, h.decr hp⟩

theorem StoreOk.off_of_pos (h : StoreOk cfg s held) (hp : 0 < (s.mem it).refcount) :
    it ∈ s.carved ∧ ∀ c, it ∉ s.slots c := by
  obtain ⟨live, lru, h⟩ := h
  exact h.carved_of_pos hp

/-- A stored item that only the table refers to gives up its chunk. -/
theorem StoreOk.takeChunk (h : StoreOk cfg s held) (hl : (s.mem it).linked = true)
    (h1 : (s.mem it).refcount = 1) :
    StoreOk cfg (refcountDecr cfg (takeChunk cfg (refcountIncr cfg s it) it
      (cfg.hash (s.key it))) it) held ∧
    ChunkReady (refcountDecr cfg (takeChunk cfg (refcountIncr cfg s it) it
      (cfg.hash (s.key it))) it) it := by
  have hheld : held it = 0 := by
    have := h.refcount_eq it
    rw [if_pos hl] at this
    omega
  have hi := h.incr (show 0 < (s.mem it).refcount by omega) (refMod_room cfg (by omega))
  have hu := hi.unlink it
  rw [key_refcountIncr] at hu
  have hlu := (unlink_mem cfg (refcountIncr cfg s it) it it (cfg.hash (s.key it))).2.1
  simp only [ne_eq, not_true_eq_false, decide_false, Bool.and_false] at hlu
  have hm : StoreOk cfg (RamCube.takeChunk cfg (refcountIncr cfg s it) it (cfg.hash (s.key it)))
      (addRef held it) :=
    hu.modify (fun hx => by rw [hlu] at hx; cases hx) rfl rfl fun _ => rfl
  have hone : 0 < addRef held it it := by simp [addRef]
  have hpos := hm.refcount_pos (.inr hone)
  have hd := hm.decr hone
  rw [dropRef_addRef] at hd
  refine ⟨hd, ?_, (hm.off_of_pos hpos).1, (hm.off_of_pos hpos).2⟩
  have hlast : ((refcountDecr cfg (RamCube.takeChunk cfg (refcountIncr cfg s it) it
      (cfg.hash (s.key it))) it).mem it).linked = false := by
    rw [refcountDecr, modify_mem_self, RamCube.takeChunk, modify_mem_self]
    exact hlu
  have hrc := hd.refcount_eq it
  rw [hheld, hlast] at hrc
  exact hrc

theorem StoreOk.moved_takeChunk (h : StoreOk cfg s held) (hl : (s.mem it).linked = true)
    (h1 : (s.mem it).refcount = 1) :
    QueuesMoved s (refcountDecr cfg (RamCube.takeChunk cfg (refcountIncr cfg s it) it
      (cfg.hash (s.key it))) it) := by
  have hpos : 0 < (s.mem it).refcount := by omega
  have hroom : Room cfg s it := refMod_room cfg (by omega)
  have hi := h.incr hpos hroom
  have hu := hi.unlink it
  have hmu := hi.moved_unlink it
  rw [key_refcountIncr] at hu hmu
  have hlu := (unlink_mem cfg (refcountIncr cfg s it) it it (cfg.hash (s.key it))).2.1
  have htime : (doItemUnlinkNolock cfg (refcountIncr cfg s it) it
      (cfg.hash (s.key it))).currentTime = s.currentTime :=
    congrArg (·.1) (env_unlink cfg (refcountIncr cfg s it) it (cfg.hash (s.key it))).1
  simp only [ne_eq, not_true_eq_false, decide_false, Bool.and_false] at hlu
  have hmod : QueuesMoved (doItemUnlinkNolock cfg (refcountIncr cfg s it) it (cfg.hash (s.key it)))
      (RamCube.takeChunk cfg (refcountIncr cfg s it) it (cfg.hash (s.key it))) := by
    obtain ⟨live, lru, hu⟩ := hu
    refine .of_same hu.queues (hu.modify (f := fun i => { i with slabsClsid := 0 }) (fun hm => ?_)
      rfl rfl fun _ => rfl).queues fun _ q _ => modify_field (·.time) rfl q
    rw [← hu.table.linked, hlu] at hm
    cases hm
  have hm := (h.takeChunk hl h1)
  have hone : 0 < addRef held it it := by simp [addRef]
  have htake : StoreOk cfg (RamCube.takeChunk cfg (refcountIncr cfg s it) it
      (cfg.hash (s.key it))) (addRef held it) :=
    hu.modify (fun hx => by rw [hlu] at hx; cases hx) rfl rfl fun _ => rfl
  exact (((h.moved_incr hpos hroom).trans hmu htime).trans hmod rfl).trans
    (htake.moved_decr hone) rfl

theorem searchStop_spec (cfg : Settings) (env : AllocEnv) (curHv : UInt32) (s : Store)
    (tries : Nat) (search : Option Ptr) {p : Ptr}
    (h : searchStop cfg env curHv s tries search = some p) : (s.mem p).refcount = 1 := by
  induction tries generalizing search with
  | zero => cases h
  | succ tries ih =>
    cases search with
    | none => cases h
    | some q =>
      simp only [searchStop] at h
      split at h
      · exact ih _ h
      · split at h
        · exact ih _ h
        · rename_i h1
          cases h
          exact not_not.mp h1

/-- The loop walks items of one queue only. -/
theorem searchStop_queued (h : ItemsOk cfg s held live lru) (env : AllocEnv) (curHv : UInt32)
    {id : SlabId} (tries : Nat) (search : Option Ptr) (hs : ∀ p ∈ search, p ∈ lru id) {p : Ptr}
    (hstop : searchStop cfg env curHv s tries search = some p) : p ∈ lru id := by
  induction tries generalizing search with
  | zero => cases hstop
  | succ tries ih =>
    cases search with
    | none => cases hstop
    | some q =>
      have hprev : ∀ r ∈ (s.mem q).prev, r ∈ lru id := fun r hr =>
        (h.queues.list id).prev_mem (hs q rfl) hr
      simp only [searchStop] at hstop
      split at hstop
      · exact ih _ hprev hstop
      · split at hstop
        · exact ih _ hprev hstop
        · cases hstop
          exact hs _ rfl

/-- What an allocation that hands out `it` does to the rest of the store. -/
structure AllocKeeps (s s' : Store) (it : Ptr) : Prop where
  body : ∀ p, p ≠ it → p ∈ s.carved → (s'.mem p).body = (s.mem p).body
  linked : ∀ p, (s'.mem p).linked = ((s.mem p).linked && decide (p ≠ it))
  count : (s.mem it).refcount = if (s.mem it).linked then 1 else 0
  env : s'.env = s.env
  order : QueuesMoved s s'

theorem StoreOk.not_linked_of_zero (h : StoreOk cfg s held) {p : Ptr}
    (h0 : (s.mem p).refcount = 0) : (s.mem p).linked = false := by
  by_contra hl
  have := h.refcount_pos (p := p) (.inl (by simpa using hl))
  omega

theorem env_slabsAlloc (s : Store) (id : SlabId) (newslab : Option (List Ptr)) :
    (slabsAlloc s id newslab).1.env = s.env := by
  unfold slabsAlloc
  cases s.slots id <;> cases newslab <;> dsimp only <;> split <;> rfl

theorem slabsAlloc_queues (s : Store) (id : SlabId) (newslab : Option (List Ptr)) :
    (slabsAlloc s id newslab).1.heads = s.heads ∧ (slabsAlloc s id newslab).1.tails = s.tails ∧
      (slabsAlloc s id newslab).1.sizes = s.sizes := by
  unfold slabsAlloc
  cases s.slots id <;> cases newslab <;> dsimp only <;> split <;> exact ⟨rfl, rfl, rfl⟩

/-- A chunk taken from the free list is in no queue. -/
theorem moved_slabsAlloc (h : StoreOk cfg s held) (id : SlabId) (newslab : Option (List Ptr))
    (hm : ∀ p, p ∈ s.carved → (slabsAlloc s id newslab).1.mem p = s.mem p) :
    QueuesMoved s (slabsAlloc s id newslab).1 := by
  obtain ⟨live, lru, h⟩ := h
  obtain ⟨h1, h2, h3⟩ := slabsAlloc_queues s id newslab
  have hin : ∀ c, ∀ p ∈ lru c, (slabsAlloc s id newslab).1.mem p = s.mem p := fun c p hp =>
    hm p (h.carved_of_pos (h.refcount_pos (.inl ((h.queued c p).mp hp).1))).1
  refine .of_same h.queues ?_ fun c p hp => by rw [hin c p hp]
  rw [h1, h2, h3]
  exact h.queues.congr fun c p hp => by
    rw [hin c p hp]
    exact ⟨rfl, rfl, rfl⟩

theorem slabsAlloc_keeps (h : StoreOk cfg s held) (id : SlabId) {newslab : Option (List Ptr)}
    (hf : FreshPage s newslab) (it : Ptr) (hit : (slabsAlloc s id newslab).2 = some it) :
    AllocKeeps s (slabsAlloc s id newslab).1 it := by
  have hspec := slabsAlloc_spec h id hf
  rw [hit] at hspec
  obtain ⟨hok, hready, h0, hmem⟩ := hspec
  refine ⟨fun p _ hp => by rw [hmem.1 p hp], fun p => ?_, ?_, env_slabsAlloc _ _ _,
    moved_slabsAlloc h id newslab hmem.1⟩
  · rw [hmem.2]
    by_cases hp : p = it
    · subst hp
      simp [h.not_linked_of_zero h0]
    · simp [hp]
  · rw [h0, h.not_linked_of_zero h0]
    rfl

theorem takeChunk_keeps (cfg : Settings) (s : Store) (it : Ptr) (hv : UInt32) :
    (∀ p, ((takeChunk cfg s it hv).mem p).body = (s.mem p).body) ∧
      (∀ p, ((takeChunk cfg s it hv).mem p).linked = ((s.mem p).linked && decide (p ≠ it))) ∧
      (takeChunk cfg s it hv).env = s.env := by
  refine ⟨fun p => ?_, fun p => ?_, (env_unlink cfg s it hv).1⟩
  · rw [takeChunk, modify_field Item.body rfl, (unlink_mem cfg s it p hv).1]
  · rw [takeChunk, modify_field (·.linked) rfl, (unlink_mem cfg s it p hv).2.1]

theorem refcount_keeps (cfg : Settings) (s : Store) (it p : Ptr) :
    (((refcountIncr cfg s it).mem p).body = (s.mem p).body ∧
      ((refcountIncr cfg s it).mem p).linked = (s.mem p).linked) ∧
    (((refcountDecr cfg s it).mem p).body = (s.mem p).body ∧
      ((refcountDecr cfg s it).mem p).linked = (s.mem p).linked) :=
  ⟨⟨modify_field Item.body rfl p, modify_field (·.linked) rfl p⟩,
    modify_field Item.body rfl p, modify_field (·.linked) rfl p⟩

/-- The chunk an allocation found: outside every structure, everything else as before. -/
def Found (cfg : Settings) (s : Store) (held : Ptr → Nat) (s' : Store) (it : Ptr) : Prop :=
  StoreOk cfg s' held ∧ ChunkReady s' it ∧ AllocKeeps s s' it

theorem found_takeChunk (h : StoreOk cfg s held) (hl : (s.mem it).linked = true)
    (h1 : (s.mem it).refcount = 1) :
    Found cfg s held (refcountDecr cfg (takeChunk cfg (refcountIncr cfg s it) it
      (cfg.hash (s.key it))) it) it := by
  obtain ⟨hok, hready⟩ := h.takeChunk hl h1
  refine ⟨hok, hready, ?_⟩
  obtain ⟨hb, hlk, he⟩ := takeChunk_keeps cfg (refcountIncr cfg s it) it (cfg.hash (s.key it))
  refine ⟨fun p _ _ => ?_, fun p => ?_, by rw [h1, hl]; rfl, he, h.moved_takeChunk hl h1⟩
  · rw [(refcount_keeps cfg _ it p).2.1, hb, (refcount_keeps cfg s it p).1.1]
  · rw [(refcount_keeps cfg _ it p).2.2, hlk, (refcount_keeps cfg s it p).1.2]

theorem found_slabsAlloc (h : StoreOk cfg s held) {search : Ptr} (id : SlabId)
    {newslab : Option (List Ptr)} (hf : FreshPage s newslab) (h1 : (s.mem search).refcount = 1)
    (it : Ptr) (hit : (slabsAlloc (refcountIncr cfg s search) id newslab).2 = some it) :
    Found cfg s held (refcountDecr cfg (slabsAlloc (refcountIncr cfg s search) id newslab).1
      search) it := by
  have hi := h.incr (show 0 < (s.mem search).refcount by omega) (refMod_room cfg (by omega))
  have hf' : FreshPage (refcountIncr cfg s search) newslab := hf
  have hspec := slabsAlloc_spec hi id hf'
  rw [hit] at hspec
  obtain ⟨hok, hready, h0, _⟩ := hspec
  obtain ⟨kb, kl, kc, ke, ko⟩ := slabsAlloc_keeps hi id hf' it hit
  have hne : it ≠ search := by
    rintro rfl
    have := (refcountIncr_eq_two h it).mpr h1
    omega
  have hone : 0 < addRef held search search := by simp [addRef]
  have hd := hok.decr hone
  rw [dropRef_addRef] at hd
  have hmi := h.moved_incr (show 0 < (s.mem search).refcount by omega) (refMod_room cfg (by omega))
  refine ⟨hd, hready.modify_of_ne hne, fun p hp hc => ?_, fun p => ?_, ?_, ke,
    (hmi.trans ko (congrArg (·.1) ke)).trans (hok.moved_decr hone) rfl⟩
  · rw [(refcount_keeps cfg _ search p).2.1, kb p hp hc, (refcount_keeps cfg s search p).1.1]
  · rw [(refcount_keeps cfg _ search p).2.2, kl, (refcount_keeps cfg s search p).1.2]
  · rw [refcountIncr, modify_mem_of_ne hne] at kc
    exact kc

/-- What the loop does at the item it stops at: it finds a chunk, or gives up and
leaves no trace. -/
theorem searchAt_spec (h : StoreOk cfg s held) {env : AllocEnv} (hf : FreshPage s env.newslab)
    (id : SlabId) {search : Ptr} (hl : (s.mem search).linked = true)
    (h1 : (s.mem search).refcount = 1) :
    (∃ it, (searchAt cfg env id s search).2 = .taken it ∧
      Found cfg s held (searchAt cfg env id s search).1 it) ∨
    searchAt cfg env id s search = (s, .outOfMemory) := by
  unfold searchAt
  dsimp only
  split
  · exact .inl ⟨search, rfl, found_takeChunk h hl h1⟩
  · have hi := h.incr (show 0 < (s.mem search).refcount by omega) (refMod_room cfg (by omega))
    have hspec := slabsAlloc_spec hi id (show FreshPage (refcountIncr cfg s search) env.newslab from hf)
    have hfound := found_slabsAlloc h id hf h1
    rcases hsa : slabsAlloc (refcountIncr cfg s search) id env.newslab with ⟨s2, r⟩
    rw [hsa] at hspec hfound
    cases r with
    | some it => exact .inl ⟨it, rfl, hfound it rfl⟩
    | none =>
      dsimp only at hspec ⊢
      subst hspec
      split
      · exact .inl ⟨search, rfl, found_takeChunk h hl h1⟩
      · exact .inr (by rw [refcountDecr_incr h])

/-- Filling in a ready chunk gives its new owner the only reference to it. -/
theorem ItemsOk.init (h : ItemsOk cfg s held live lru) (hr : ChunkReady s it) {f : Item → Item}
    (hl : (f (s.mem it)).linked = false) (h1 : (f (s.mem it)).refcount = 1)
    (hs : (f (s.mem it)).slabbed = false) :
    ItemsOk cfg (s.modify it f) (addRef held it) live lru := by
  have hlive : it ∉ live ∧ held it = 0 := by
    have h0 := h.refs.refs it
    rw [hr.free] at h0
    by_cases hm : it ∈ live
    · rw [if_pos hm] at h0
      omega
    · rw [if_neg hm] at h0
      exact ⟨hm, by omega⟩
  have hne : ∀ p ∈ live, (s.modify it f).mem p = s.mem p := fun p hp =>
    modify_mem_of_ne fun he => hlive.1 (he ▸ hp)
  constructor
  · refine h.table.congr (fun p hp => by rw [hne p hp]) (modify_field (·.linked) ?_)
    rw [hl]
    exact (Bool.eq_false_iff.mpr ((not_congr (h.table.linked it)).mpr hlive.1)).symm
  · exact h.count.congr fun p hp => by rw [hne p hp]
  · refine h.queues.congr fun c p hp => ?_
    rw [hne p ((h.queued c p).mp hp).1]
    exact ⟨rfl, rfl, rfl⟩
  · intro c p
    rw [h.queued]
    exact and_congr_right fun hp => by rw [hne p hp]
  · constructor
    · intro p
      by_cases hp : p = it
      · subst hp
        rw [modify_mem_self, h1, if_neg hlive.1, addRef, Function.update_self, hlive.2]
      · rw [modify_mem_of_ne hp, addRef, Function.update_of_ne hp, h.refs.refs]
    · refine cfg.counts.imp id fun hm p => ?_
      by_cases hp : p = it
      · subst hp
        rw [modify_mem_self, h1, hm]
        omega
      · rw [modify_mem_of_ne hp]
        exact h.refs.room.resolve_left (by omega) p
  · have hother : ∀ c, ∀ p ∈ s.slots c, (s.modify it f).mem p = s.mem p := fun c p hp =>
      modify_mem_of_ne fun he => hr.off c (he ▸ hp)
    constructor
    · exact h.chunks.nodup
    · exact h.chunks.disjoint
    · exact h.chunks.known
    · intro c p hp
      rw [hother c p hp]
      exact h.chunks.free c p hp
    · intro p hp
      have he : p ≠ it := fun he => hp (he ▸ hr.known)
      rw [modify_mem_of_ne he]
      exact h.chunks.fresh p hp
    · intro p hp
      by_cases he : p = it
      · subst he
        rw [modify_mem_self, hs]
      · rw [modify_mem_of_ne he] at hp ⊢
        exact h.chunks.busy p hp

theorem allocChunk_spec (h : StoreOk cfg s held) {env : AllocEnv} (hf : FreshPage s env.newslab)
    {id : SlabId} {curHv : UInt32} (hr : tailRepairFires cfg env curHv s 5 (s.tails id) = false) :
    allocChunk cfg env s id curHv = (s, none) ∨
      ∃ s' it, allocChunk cfg env s id curHv = (s', some it) ∧ Found cfg s held s' it := by
  unfold allocChunk
  rw [allocSearch_eq h env id curHv 5 _ hr]
  cases hstop : searchStop cfg env curHv s 5 (s.tails id) with
  | none =>
    dsimp only
    have hspec := slabsAlloc_spec h id hf
    have hkeeps := slabsAlloc_keeps h id hf
    rcases hsa : slabsAlloc s id env.newslab with ⟨s2, r⟩
    rw [hsa] at hspec hkeeps
    cases r with
    | none => exact .inl (by rw [show s2 = s from hspec])
    | some it => exact .inr ⟨s2, it, rfl, hspec.1, hspec.2.1, hkeeps it rfl⟩
  | some search =>
    have h1 := searchStop_spec cfg env curHv s 5 _ hstop
    have hl : (s.mem search).linked = true := by
      obtain ⟨live, lru, hok⟩ := h
      have hq := searchStop_queued hok env curHv 5 (s.tails id) (fun p hp =>
        List.mem_of_getLast? ((hok.queues.list id).tail_eq.symm.trans hp)) hstop
      exact (hok.table.linked search).mpr ((hok.queued id search).mp hq).1
    dsimp only
    rcases searchAt_spec h hf id hl h1 with ⟨it, hit, hfound⟩ | hnone
    · rcases hsa : searchAt cfg env id s search with ⟨s2, r⟩
      rw [hsa] at hit hfound
      cases hit
      exact .inr ⟨s2, it, rfl, hfound⟩
    · rw [hnone]
      exact .inl rfl

theorem itemNtotal_itemInit (cfg : Settings) (id : SlabId) (key : Bytes) (flags : Int) (exptime : UInt32) (n : Nat)
    (i : Item) : itemNtotal (itemInit cfg id key flags exptime n i) = itemMakeHeader cfg (key.length + 1) flags n := by
  unfold itemNtotal itemInit itemMakeHeader
  cases cfg.useCas <;> dsimp only <;> omega

/-- `do_item_alloc` fails without a trace, or hands out a chunk with the header
fields filled in and one reference to it. -/
theorem doItemAlloc_spec (h : StoreOk cfg s held) {env : AllocEnv} (hf : FreshPage s env.newslab)
    (key : Bytes) (flags : Int) (exptime : UInt32) (nbytes : Nat) (curHv : UInt32)
    (hr : tailRepairFires cfg env curHv s 5 (s.tails (slabsClsid cfg.slabclass
      (itemMakeHeader cfg (key.length + 1) flags nbytes))) = false) :
    doItemAlloc cfg env s key flags exptime nbytes curHv = (s, none) ∨
      ∃ s' it id i, doItemAlloc cfg env s key flags exptime nbytes curHv = (s', some it) ∧
        StoreOk cfg s' (addRef held it) ∧ AllocKeeps s s' it ∧
        s'.mem it = itemInit cfg id key flags exptime nbytes i := by
  unfold doItemAlloc
  dsimp only
  split
  · exact .inl rfl
  · generalize slabsClsid cfg.slabclass (itemMakeHeader cfg (key.length + 1) flags nbytes) = id at *
    rcases allocChunk_spec h hf hr with
      hnone | ⟨s', it, he, ⟨live, lru, hok⟩, hready, hb, hlk, hc, hv, ho⟩
    · rw [hnone]
      exact .inl rfl
    · rw [he]
      refine .inr ⟨_, it, id, s'.mem it, rfl, ⟨live, lru, hok.init hready rfl rfl rfl⟩,
        ⟨fun p hp hpc => ?_, fun p => ?_, hc, hv, ho.trans ?_ rfl⟩, modify_mem_self⟩
      · rw [modify_mem_of_ne hp, hb p hp hpc]
      · by_cases hp : p = it
        · subst hp
          simp [itemInit]
        · rw [modify_mem_of_ne hp, hlk]
      · refine .of_same hok.queues (hok.init hready rfl rfl rfl).queues fun c q hq => ?_
        have hpos := hok.refcount_pos (.inl ((hok.queued c q).mp hq).1)
        rw [modify_mem_of_ne fun hqi => by rw [hqi, hready.free] at hpos; omega]

/-! ## Flush -/

/-- The walk over a queue unlinks the items at its front that are not older than the
flush mark. The queue is no longer than the walk, so the walk ends at its end or at
an older item. -/
theorem ItemsOk.flushClass (h : ItemsOk cfg s held live lru) {c : SlabId} {fuel : Nat}
    (hfuel : (lru c).length ≤ fuel) :
    ∃ live' lru', ItemsOk cfg (flushClass cfg fuel (s.heads c) s) held live' lru' ∧
      lru' c = (lru c).dropWhile (fun p => decide (s.oldestLive ≤ (s.mem p).time)) ∧
      (∀ c', c' ≠ c → lru' c' = lru c') ∧
      (RamCube.flushClass cfg fuel (s.heads c) s).env = s.env ∧
      ∀ p, ((RamCube.flushClass cfg fuel (s.heads c) s).mem p).body = (s.mem p).body := by
  generalize hl : lru c = l at *
  induction l generalizing s live lru fuel with
  | nil =>
    have hh : s.heads c = none := by rw [(h.queues.list c).head_eq, hl]; rfl
    have hn : RamCube.flushClass cfg fuel (s.heads c) s = s := by
      rw [hh]
      cases fuel <;> rfl
    rw [hn]
    exact ⟨live, lru, h, by simpa using hl, fun _ _ => rfl, rfl, fun _ => rfl⟩
  | cons p ps ih =>
    have hh : s.heads c = some p := by rw [(h.queues.list c).head_eq, hl]; rfl
    cases fuel with
    | zero => simp at hfuel
    | succ fuel =>
      have hmem : p ∈ lru c := by simp [hl]
      obtain ⟨hp, hcls⟩ := (h.queued c p).mp hmem
      have hslab := h.chunks.busy p (h.refcount_pos (.inl hp))
      have hnext : (s.mem p).next = ps.head? := by
        have hlist := h.queues.list c
        rw [hl, ← List.nil_append (p :: ps)] at hlist
        exact hlist.links.1
      rw [hh]
      simp only [RamCube.flushClass]
      by_cases ht : s.oldestLive ≤ (s.mem p).time
      · have hu := h.unlink hp
        rw [hcls, hl, List.erase_cons_head] at hu
        obtain ⟨he, _⟩ := env_unlink cfg s p (cfg.hash (s.key p))
        have hbody := fun q => (unlink_mem cfg s p q (cfg.hash (s.key p))).1
        have hold : (doItemUnlinkNolock cfg s p (cfg.hash (s.key p))).oldestLive = s.oldestLive :=
          congrArg (·.2.1) he
        rw [if_pos ht, hslab]
        simp only [Bool.false_eq_true, if_false]
        generalize doItemUnlinkNolock cfg s p (cfg.hash (s.key p)) = s1 at *
        have hhead : s1.heads c = (s.mem p).next := by
          rw [(hu.queues.list c).head_eq, Function.update_self, hnext]
        rw [← hhead]
        obtain ⟨live', lru', hok, h1, h2, h3, h4⟩ := ih hu (Function.update_self _ _ _)
          (Nat.le_of_succ_le_succ hfuel)
        refine ⟨live', lru', hok, ?_, ?_, h3.trans he, fun q => (h4 q).trans (hbody q)⟩
        · rw [h1, List.dropWhile_cons_of_pos (by simpa using ht), hold]
          congr 1
          funext q
          rw [time_of_body (hbody q)]
        · intro c' hc'
          rw [h2 c' hc', Function.update_of_ne hc']
      · rw [if_neg ht]
        refine ⟨live, lru, h, ?_, fun _ _ => rfl, rfl, fun _ => rfl⟩
        rw [hl, List.dropWhile_cons_of_neg (by simpa using ht)]

theorem StoreOk.flushClass (h : StoreOk cfg s held) (c : SlabId) :
    StoreOk cfg (RamCube.flushClass cfg (s.sizes c) (s.heads c) s) held := by
  obtain ⟨live, lru, h⟩ := h
  obtain ⟨live', lru', h', _⟩ := h.flushClass (c := c) (le_of_eq (h.queues.sizes c).symm)
  exact ⟨live', lru', h'⟩

theorem StoreOk.flush (h : StoreOk cfg s held) : StoreOk cfg (doItemFlushExpired cfg s) held := by
  unfold doItemFlushExpired
  split
  · exact h
  · rename_i h0
    clear h0
    generalize List.finRange LARGEST_ID = classes
    induction classes generalizing s with
    | nil => exact h
    | cons c cs ih => exact ih (h.flushClass c)

end RamCube
