import RamCube.Store.Commands

/-! # What the operations leave alone

The contents of an item (`Item.body`) change when it is linked (`time` and `cas`),
moved up (`time`), touched (`exptime`) or written; no operation touches the
contents of another item that is stored or referred to. -/
namespace RamCube

variable {cfg : Settings} {s : Store} {it newIt : Ptr} {held : Ptr → Nat}

theorem env_update (s : Store) (it : Ptr) : (doItemUpdate s it).env = s.env ∧
    (doItemUpdate s it).carved = s.carved := by
  unfold doItemUpdate
  split
  · split
    · obtain ⟨_, h1⟩ := itemUnlinkQ_rest s it
      dsimp only
      obtain ⟨_, h2⟩ := itemLinkQ_rest ((itemUnlinkQ s it).modify it fun i =>
        { i with time := (itemUnlinkQ s it).currentTime }) it
      rw [h2, h1]
      exact ⟨rfl, rfl⟩
    · exact ⟨rfl, rfl⟩
  · exact ⟨rfl, rfl⟩

/-- Moving an item up sets its time and nothing else of any item. -/
theorem update_mem (s : Store) (it p : Ptr) : ∃ t,
    ((doItemUpdate s it).mem p).body = { (s.mem p).body with time := t } ∧
    ((doItemUpdate s it).mem p).linked = (s.mem p).linked ∧
    ((doItemUpdate s it).mem p).refcount = (s.mem p).refcount ∧
    (t = (s.mem p).time ∨ (p = it ∧ t = s.currentTime)) := by
  unfold doItemUpdate
  split
  · split
    · dsimp only
      obtain ⟨_, hrest⟩ := itemUnlinkQ_rest s it
      have htime := congrArg Store.currentTime hrest
      obtain ⟨n, q, h1⟩ := relinked_itemUnlinkQ s it p
      obtain ⟨n', q', h2⟩ := relinked_itemLinkQ ((itemUnlinkQ s it).modify it fun i =>
        { i with time := (itemUnlinkQ s it).currentTime }) it p
      rw [h2]
      by_cases hp : p = it
      · subst hp
        rw [modify_mem_self, h1]
        exact ⟨_, rfl, rfl, rfl, .inr ⟨rfl, htime⟩⟩
      · rw [modify_mem_of_ne hp, h1]
        exact ⟨(s.mem p).time, rfl, rfl, rfl, .inl rfl⟩
    · exact ⟨(s.mem p).time, rfl, rfl, rfl, .inl rfl⟩
  · exact ⟨(s.mem p).time, rfl, rfl, rfl, .inl rfl⟩

/-- The environment after a link: a `cas` unique more is used up. -/
theorem env_link (cfg : Settings) (s : Store) (it : Ptr) (hv : UInt32) :
    (doItemLink cfg s it hv).env = (s.currentTime, s.oldestLive, s.slabRebal,
      if cfg.useCas then s.casId + 1 else s.casId) ∧
    (doItemLink cfg s it hv).carved = s.carved := by
  rw [doItemLink_eq, linkItem_eq]
  obtain ⟨_, h⟩ := itemLinkQ_rest (linkPrepare cfg s it hv) it
  unfold refcountIncr
  rw [h]
  exact ⟨rfl, rfl⟩

/-- Linking an item sets its time, its `cas` and its mark and changes no other item. -/
theorem link_mem (cfg : Settings) (s : Store) (it : Ptr) (hv : UInt32) :
    (∀ p, p ≠ it → ((doItemLink cfg s it hv).mem p).body = (s.mem p).body ∧
      ((doItemLink cfg s it hv).mem p).linked = (s.mem p).linked ∧
      ((doItemLink cfg s it hv).mem p).refcount = (s.mem p).refcount) ∧
    ((doItemLink cfg s it hv).mem it).body =
      itemSetCas { (s.mem it).body with time := s.currentTime } (linkCas cfg s) ∧
    ((doItemLink cfg s it hv).mem it).linked = true ∧
    ((doItemLink cfg s it hv).mem it).refcount = ((s.mem it).refcount + 1) % cfg.refMod := by
  rw [doItemLink_eq, linkItem_eq]
  have hrel := relinked_itemLinkQ (linkPrepare cfg s it hv) it
  refine ⟨fun p hp => ?_, ?_, ?_, ?_⟩
  · obtain ⟨n, q, he⟩ := hrel p
    have hpre : (linkPrepare cfg s it hv).mem p = s.mem p := Function.update_of_ne hp _ _
    rw [refcountIncr, modify_mem_of_ne hp, he, hpre]
    exact ⟨rfl, rfl, rfl⟩
  · obtain ⟨n, q, he⟩ := hrel it
    rw [refcountIncr, modify_mem_self, he, linkPrepare]
    simp only [modify_mem_self]
    unfold itemSetCas Item.body
    split <;> rfl
  · obtain ⟨n, q, he⟩ := hrel it
    rw [refcountIncr, modify_mem_self, he, linkPrepare]
    simp only [modify_mem_self]
    rw [itemSetCas_field (·.linked) (fun _ _ => rfl)]
  · obtain ⟨n, q, he⟩ := hrel it
    rw [refcountIncr, modify_mem_self, he, linkPrepare]
    simp only [modify_mem_self]
    rw [itemSetCas_field (·.refcount) (fun _ _ => rfl)]

/-! ## Lookup -/

/-- The three outcomes of `do_item_get`. -/
theorem doItemGet_cases (h : StoreOk cfg s held) (key : Bytes) :
    (doItemGet cfg s key (cfg.hash key) = (s, none) ∧
      ∀ p, (s.mem p).linked = true → s.key p ≠ key) ∨
    (∃ it s', doItemGet cfg s key (cfg.hash key) = (s', none) ∧ (s.mem it).linked = true ∧
      s.key it = key ∧ (inRebalance s it = true ∨ flushedOrExpired s (s.mem it) = true) ∧
      s'.env = s.env ∧ s'.carved = s.carved ∧ ∀ p, (s'.mem p).body = (s.mem p).body ∧
        (s'.mem p).linked = ((s.mem p).linked && decide (p ≠ it)) ∧
        (p ≠ it → (s'.mem p).refcount = (s.mem p).refcount)) ∨
    (∃ it s', doItemGet cfg s key (cfg.hash key) = (s', some it) ∧ (s.mem it).linked = true ∧
      s.key it = key ∧ inRebalance s it = false ∧ flushedOrExpired s (s.mem it) = false ∧
      s'.env = s.env ∧ s'.carved = s.carved ∧ s'.slots = s.slots ∧
      ∀ p, (s'.mem p).body = (s.mem p).body ∧ (s'.mem p).linked = (s.mem p).linked ∧
        (p ≠ it → (s'.mem p).refcount = (s.mem p).refcount)) := by
  unfold doItemGet
  cases hf : assocFind s.key s.assoc key (cfg.hash key) with
  | none => exact .inl ⟨rfl, h.find_none.mp hf⟩
  | some it =>
    obtain ⟨hl, hk⟩ := h.find_iff.mp hf
    have hreb : inRebalance (refcountIncr cfg s it) it = inRebalance s it := rfl
    have hdead : flushedOrExpired (refcountIncr cfg s it) ((refcountIncr cfg s it).mem it) =
        flushedOrExpired s (s.mem it) := by
      rw [refcountIncr, modify_mem_self]
      rfl
    have hi := fun p => (refcount_keeps cfg s it p).1
    have hir : ∀ p, p ≠ it → ((refcountIncr cfg s it).mem p).refcount = (s.mem p).refcount :=
      fun p hp => by rw [refcountIncr, modify_mem_of_ne hp]
    have hu := fun p => unlink_mem cfg (refcountIncr cfg s it) it p (cfg.hash key)
    have hr := fun p => doItemRemove_mem cfg (doItemUnlinkNolock cfg (refcountIncr cfg s it) it
      (cfg.hash key)) it p
    have hdrop : ∀ p, ((doItemRemove cfg (doItemUnlinkNolock cfg (refcountIncr cfg s it) it
          (cfg.hash key)) it).mem p).body = (s.mem p).body ∧
        ((doItemRemove cfg (doItemUnlinkNolock cfg (refcountIncr cfg s it) it
          (cfg.hash key)) it).mem p).linked = ((s.mem p).linked && decide (p ≠ it)) ∧
        (p ≠ it → ((doItemRemove cfg (doItemUnlinkNolock cfg (refcountIncr cfg s it) it
          (cfg.hash key)) it).mem p).refcount = (s.mem p).refcount) := by
      intro p
      refine ⟨(hr p).1.trans ((hu p).1.trans (hi p).1), ?_, fun hp => ?_⟩
      · rw [(hr p).2.1, (hu p).2.1, (hi p).2]
      · rw [(hr p).2.2, refcountDecr, modify_mem_of_ne hp, (hu p).2.2 hp, hir p hp]
    have henv := env_doItemRemove cfg (doItemUnlinkNolock cfg (refcountIncr cfg s it) it
      (cfg.hash key)) it
    have henv' := env_unlink cfg (refcountIncr cfg s it) it (cfg.hash key)
    dsimp only
    rw [hreb, hdead]
    right
    by_cases h1 : inRebalance s it = true
    · left
      rw [if_pos h1]
      exact ⟨it, _, rfl, hl, hk, .inl h1, henv.1.trans henv'.1, henv.2.trans henv'.2, hdrop⟩
    · rw [if_neg h1]
      by_cases h2 : flushedOrExpired s (s.mem it) = true
      · left
        rw [if_pos h2]
        exact ⟨it, _, rfl, hl, hk, .inr h2, henv.1.trans henv'.1, henv.2.trans henv'.2, hdrop⟩
      · right
        rw [if_neg h2]
        refine ⟨it, _, rfl, hl, hk, by simpa using h1, by simpa using h2, rfl, rfl, rfl, fun p => ?_⟩
        refine ⟨?_, ?_, fun hp => ?_⟩
        · rw [modify_field Item.body rfl, (hi p).1]
        · rw [modify_field (·.linked) rfl, (hi p).2]
        · rw [modify_mem_of_ne hp, hir p hp]

/-! ## Flush -/

theorem flushClass_linked (cfg : Settings) (fuel : Nat) (iter : Option Ptr) (s : Store) (p : Ptr) :
    ((flushClass cfg fuel iter s).mem p).body = (s.mem p).body ∧
      (((flushClass cfg fuel iter s).mem p).linked = true → (s.mem p).linked = true) ∧
      (flushClass cfg fuel iter s).env = s.env ∧ (flushClass cfg fuel iter s).carved = s.carved := by
  induction fuel generalizing iter s with
  | zero => exact ⟨rfl, id, rfl, rfl⟩
  | succ fuel ih =>
    cases iter with
    | none => exact ⟨rfl, id, rfl, rfl⟩
    | some iter =>
      simp only [flushClass]
      split
      · split
        · exact ih _ s
        · obtain ⟨h1, h2, h3, h4⟩ := ih (s.mem iter).next
            (doItemUnlinkNolock cfg s iter (cfg.hash (s.key iter)))
          obtain ⟨u1, u2, _⟩ := unlink_mem cfg s iter p (cfg.hash (s.key iter))
          obtain ⟨e1, e2⟩ := env_unlink cfg s iter (cfg.hash (s.key iter))
          refine ⟨h1.trans u1, fun hl => ?_, h3.trans e1, h4.trans e2⟩
          have := h2 hl
          rw [u2, Bool.and_eq_true] at this
          exact this.1
      · exact ⟨rfl, id, rfl, rfl⟩

/-- A flush unlinks items and changes none. -/
theorem flush_mem (cfg : Settings) (s : Store) (p : Ptr) :
    ((doItemFlushExpired cfg s).mem p).body = (s.mem p).body ∧
      (((doItemFlushExpired cfg s).mem p).linked = true → (s.mem p).linked = true) ∧
      (doItemFlushExpired cfg s).env = s.env ∧ (doItemFlushExpired cfg s).carved = s.carved := by
  unfold doItemFlushExpired
  split
  · exact ⟨rfl, id, rfl, rfl⟩
  · rename_i h0
    clear h0
    generalize List.finRange LARGEST_ID = classes
    induction classes generalizing s with
    | nil => exact ⟨rfl, id, rfl, rfl⟩
    | cons c cs ih =>
      obtain ⟨h1, h2, h3, h4⟩ := flushClass_linked cfg (s.sizes c) (s.heads c) s p
      obtain ⟨i1, i2, i3, i4⟩ := ih (flushClass cfg (s.sizes c) (s.heads c) s)
      exact ⟨i1.trans h1, fun hl => h2 (i2 hl), i3.trans h3, i4.trans h4⟩

end RamCube
