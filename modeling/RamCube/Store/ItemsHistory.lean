import RamCube.Store.ItemsFrame

/-! # What a run remembers of a stored item

An item that is stored after a step and was not linked by it was stored before,
with the same key, flags, value and `cas`; and a step under an unchanged clock
does not make a flushed or expired item count as live again. -/
namespace RamCube

variable {cfg : Settings} {s : Store} {it p q : Ptr} {held : Ptr → Nat}

/-- What linking, moving up and touching an item leave as it was written. -/
def Item.stored (i : Item) : Item := { i.body with time := 0, exptime := 0 }

theorem stored_of_body {i j : Item} (h : i.body = j.body) : i.stored = j.stored := by
  unfold Item.stored
  rw [h]

/-- Fields that `Item.stored` keeps. -/
theorem stored_field {β : Type} (g : Item → β) (hg : ∀ i, g i.stored = g i) {i j : Item}
    (h : i.stored = j.stored) : g i = g j := by
  rw [← hg i, h, hg j]

/-- Flushed: not newer than a flush mark whose time has come. -/
def flushed (s : Store) (i : Item) : Bool :=
  s.oldestLive != 0 && s.oldestLive ≤ s.currentTime && i.time ≤ s.oldestLive

def expired (s : Store) (i : Item) : Bool := i.exptime != 0 && i.exptime ≤ s.currentTime

theorem flushedOrExpired_eq (s : Store) (i : Item) :
    flushedOrExpired s i = (flushed s i || expired s i) := rfl

/-! ## Well formed items -/

/-- An item as `do_item_alloc` lays it out. -/
structure ItemWf (cfg : Settings) (i : Item) : Prop where
  hasCas : i.hasCas = cfg.useCas
  nbytes : 2 ≤ i.nbytes
  suffix : ∃ flags, itemSuffix i = headerSuffix flags i.nbytes

/-- Every item that is stored or referred to is well formed. -/
abbrev ItemsWf (cfg : Settings) (s : Store) (held : Ptr → Nat) : Prop :=
  ∀ p, (s.mem p).linked = true ∨ 0 < held p → ItemWf cfg (s.mem p)

/-- Besides, no stored item has a `cas` that was not handed out yet. -/
structure StoreWf (cfg : Settings) (s : Store) (held : Ptr → Nat) : Prop where
  items : ∀ p, (s.mem p).linked = true ∨ 0 < held p → ItemWf cfg (s.mem p)
  cas : ∀ p, (s.mem p).linked = true → (itemGetCas (s.mem p)).toNat ≤ s.casId.toNat

theorem ItemWf.congr {i j : Item} (h : ItemWf cfg i) (hb : j.stored = i.stored) :
    ItemWf cfg j where
  hasCas := (stored_field (·.hasCas) (fun _ => rfl) hb).trans h.hasCas
  nbytes := (stored_field (·.nbytes) (fun _ => rfl) hb).symm ▸ h.nbytes
  suffix := by
    obtain ⟨flags, hf⟩ := h.suffix
    refine ⟨flags, ?_⟩
    rw [stored_field itemSuffix (fun _ => rfl) hb, hf, stored_field (·.nbytes) (fun _ => rfl) hb]

/-- The header text lies where `ITEM_suffix` reads it. -/
theorem itemInit_wf (cfg : Settings) (id : SlabId) (key : Bytes) (flags : Int) (exptime : UInt32)
    {nbytes : Nat} (hn : 2 ≤ nbytes) (i : Item) :
    ItemWf cfg (itemInit cfg id key flags exptime nbytes i) where
  hasCas := rfl
  nbytes := hn
  suffix := ⟨flags, slice_blit_self⟩

theorem itemInit_key (cfg : Settings) (id : SlabId) (key : Bytes) (flags : Int) (exptime : UInt32)
    (nbytes : Nat) (i : Item) : itemKey (itemInit cfg id key flags exptime nbytes i) = key := by
  simp only [itemKey, itemInit]
  rw [slice_blit_of_disjoint (.inl (by omega)), slice_blit_self]

theorem itemSetCas_self (i : Item) : itemSetCas i i.cas = i := by
  unfold itemSetCas
  split <;> rfl

/-- A write behind the suffix. -/
theorem ItemWf.write {i : Item} (h : ItemWf cfg i) {bytes : Nat → UInt8} {cas : UInt64}
    (hb : ∀ k < itemDataOff i, bytes k = i.bytes k) :
    ItemWf cfg (itemSetCas { i with bytes := bytes } cas) := by
  constructor
  · rw [itemSetCas_field (·.hasCas) (fun _ _ => rfl)]
    exact h.hasCas
  · rw [itemSetCas_field (·.nbytes) (fun _ _ => rfl)]
    exact h.nbytes
  · rw [itemSetCas_field itemSuffix (fun _ _ => rfl), itemSetCas_field (·.nbytes) (fun _ _ => rfl)]
    obtain ⟨flags, hf⟩ := h.suffix
    refine ⟨flags, ?_⟩
    rw [← hf]
    refine slice_congr fun k _ hk => hb k ?_
    simpa [itemDataOff] using hk

/-! ## One step -/

/-- `q`, stored after a step, was stored before it with the same contents; if the step
was `quiet`, its time and its expiry changed only if it was live. -/
structure Kept (s s' : Store) (quiet : Prop) (q : Ptr) : Prop where
  linked : (s.mem q).linked = true
  stored : (s'.mem q).stored = (s.mem q).stored
  moved : (s'.mem q).time = (s.mem q).time ∨ (s'.mem q).time = s.currentTime
  times : quiet → ((s'.mem q).time = (s.mem q).time ∧ (s'.mem q).exptime = (s.mem q).exptime) ∨
    flushed s (s.mem q) = false ∧
      ((s'.mem q).exptime = (s.mem q).exptime ∨ expired s (s.mem q) = false)

/-- `q` was linked by the step. -/
structure JustLinked (cfg : Settings) (s s' : Store) (q : Ptr) : Prop where
  cas : itemGetCas (s'.mem q) = linkCas cfg s
  casId : s'.casId = if cfg.useCas then s.casId + 1 else s.casId
  time : (s'.mem q).time = s.currentTime

/-- The steps that leave the clock and the flush mark alone. -/
def Timeless : ItemsOp → Prop
  | .clock _ _ _ => False
  | _ => True

/-- The steps that use up a `cas` unique. -/
def Links : ItemsOp → Prop
  | .link _ | .replace _ _ => True
  | _ => False

/-- The item a step links. -/
def LinksItem : ItemsOp → Ptr → Prop
  | .link it, q => q = it
  | .replace _ newIt, q => q = newIt
  | _, _ => False

theorem Links.item {op : ItemsOp} (h : Links op) : ∃ q, LinksItem op q := by
  cases op with
  | link it => exact ⟨it, rfl⟩
  | replace it newIt => exact ⟨newIt, rfl⟩
  | _ => exact h.elim

theorem LinksItem.links {op : ItemsOp} {q : Ptr} (h : LinksItem op q) : Links op := by
  cases op with
  | link | replace => trivial
  | _ => exact h.elim

/-- The timeless steps that move up no flushed item. -/
def Quiet (s : ItemsState) : ItemsOp → Prop
  | .update it => flushed s.store (s.store.mem it) = false
  | .clock _ _ _ => False
  | _ => True

theorem Quiet.timeless {s : ItemsState} {op : ItemsOp} (h : Quiet s op) : Timeless op := by
  cases op with
  | clock => exact h
  | _ => trivial

theorem exptime_of_body {i j : Item} (h : i.body = j.body) : i.exptime = j.exptime := by
  change i.body.exptime = j.body.exptime
  rw [h]

theorem kept_of_body {s' : Store} {quiet : Prop} (hl : (s.mem q).linked = true)
    (hb : (s'.mem q).body = (s.mem q).body) : Kept s s' quiet q :=
  ⟨hl, stored_of_body hb, .inl (time_of_body hb), fun _ =>
    .inl ⟨time_of_body hb, exptime_of_body hb⟩⟩

theorem StoreOk.carved_of (h : StoreOk cfg s held) (hp : (s.mem p).linked = true ∨ 0 < held p) :
    p ∈ s.carved :=
  (h.off_of_pos (h.refcount_pos hp)).1

theorem linkCas_eq (hc : cfg.useCas = true) (s : Store) : linkCas cfg s = s.casId + 1 := by
  simp [linkCas, hc]

theorem linked_time {i j : Item} {t : UInt32} {c : UInt64}
    (h : j.body = itemSetCas { i.body with time := t } c) : j.time = t := by
  change j.body.time = t
  rw [h, itemSetCas_field (·.time) (fun _ _ => rfl)]

theorem itemGetCas_of_body {i j : Item} (h : i.body = j.body) : itemGetCas i = itemGetCas j := by
  change itemGetCas i.body = itemGetCas j.body
  rw [h]

/-- The `cas` of an item just linked is the new one. -/
theorem linked_cas {i j : Item} {t : UInt32} (hw : i.hasCas = cfg.useCas)
    (h : j.body = itemSetCas { i.body with time := t } (linkCas cfg s)) :
    itemGetCas j = linkCas cfg s := by
  change itemGetCas j.body = _
  rw [h]
  unfold itemSetCas itemGetCas linkCas
  cases hu : cfg.useCas <;> rw [hu] at hw <;> simp [Item.body, hw]

theorem addRef_pos {r : Ptr} (h : 0 < addRef held p r) : r = p ∨ 0 < held r := by
  by_cases hr : r = p
  · exact .inl hr
  · rw [addRef, Function.update_of_ne hr] at h
    exact .inr h

theorem dropRef_pos {r : Ptr} (h : 0 < dropRef held p r) : 0 < held r := by
  by_cases hr : r = p
  · subst hr
    rw [dropRef, Function.update_self] at h
    omega
  · rwa [dropRef, Function.update_of_ne hr] at h

theorem replace_mem (cfg : Settings) (s : Store) (it newIt : Ptr) (hv : UInt32) (hne : newIt ≠ it) :
    (∀ p, p ≠ newIt → ((doItemReplace cfg s it newIt hv).mem p).body = (s.mem p).body ∧
      ((doItemReplace cfg s it newIt hv).mem p).linked = ((s.mem p).linked && decide (p ≠ it)) ∧
      (p ≠ it → ((doItemReplace cfg s it newIt hv).mem p).refcount = (s.mem p).refcount)) ∧
    ((doItemReplace cfg s it newIt hv).mem newIt).body =
      itemSetCas { (s.mem newIt).body with time := s.currentTime } (linkCas cfg s) ∧
    ((doItemReplace cfg s it newIt hv).mem newIt).linked = true ∧
    ((doItemReplace cfg s it newIt hv).mem newIt).refcount =
      ((s.mem newIt).refcount + 1) % cfg.refMod ∧
    (doItemReplace cfg s it newIt hv).env = (s.currentTime, s.oldestLive, s.slabRebal,
      if cfg.useCas then s.casId + 1 else s.casId) ∧
    (doItemReplace cfg s it newIt hv).carved = s.carved := by
  unfold doItemReplace doItemUnlink
  obtain ⟨l1, l2, l3, l4⟩ := link_mem cfg (doItemUnlinkNolock cfg s it hv) newIt hv
  have hu := fun p => unlink_mem cfg s it p hv
  obtain ⟨e1, e2⟩ := env_unlink cfg s it hv
  obtain ⟨f1, f2⟩ := env_link cfg (doItemUnlinkNolock cfg s it hv) newIt hv
  have t1 : (doItemUnlinkNolock cfg s it hv).currentTime = s.currentTime := congrArg (·.1) e1
  have t2 : (doItemUnlinkNolock cfg s it hv).oldestLive = s.oldestLive := congrArg (·.2.1) e1
  have t3 : (doItemUnlinkNolock cfg s it hv).slabRebal = s.slabRebal := congrArg (·.2.2.1) e1
  have t4 : (doItemUnlinkNolock cfg s it hv).casId = s.casId := congrArg (·.2.2.2) e1
  refine ⟨fun p hp => ?_, ?_, l3, ?_, ?_, f2.trans e2⟩
  · obtain ⟨b, l, r⟩ := l1 p hp
    refine ⟨b.trans (hu p).1, l.trans (hu p).2.1, fun hpi => r.trans ((hu p).2.2 hpi)⟩
  · rw [l2, (hu newIt).1, t1, linkCas, t4]
    rfl
  · rw [l4, (hu newIt).2.2 hne]
  · rw [f1, t1, t2, t3, t4]

/-- The item a link stores has the contents it had, a new time and the new `cas`. -/
theorem linked_stored {i j : Item} {t : UInt32} {c : UInt64}
    (h : j.body = itemSetCas { i.body with time := t } c) {β : Type} (g : Item → β)
    (hs : ∀ i, g i.stored = g i) (hc : ∀ i c, g { i with cas := c } = g i) : g j = g i := by
  have hb : ∀ i : Item, g i.body = g i := fun i => by rw [← hs i.body, ← hs i]; rfl
  have ht : ∀ i t, g { i with time := t } = g i := fun i t => by
    rw [← hs { i with time := t }, ← hs i]
    rfl
  rw [← hb j, h, itemSetCas_field g hc, ht, hb]

theorem ItemWf.of_linked {i j : Item} {t : UInt32} {c : UInt64} (hw : ItemWf cfg i)
    (h : j.body = itemSetCas { i.body with time := t } c) : ItemWf cfg j where
  hasCas := (linked_stored h (·.hasCas) (fun _ => rfl) fun _ _ => rfl).trans hw.hasCas
  nbytes := (linked_stored h (·.nbytes) (fun _ => rfl) fun _ _ => rfl) ▸ hw.nbytes
  suffix := by
    obtain ⟨flags, hf⟩ := hw.suffix
    refine ⟨flags, ?_⟩
    rw [linked_stored h itemSuffix (fun _ => rfl) fun _ _ => rfl, hf,
      linked_stored h (·.nbytes) (fun _ => rfl) fun _ _ => rfl]

/-! ### Well-formed items, case by case -/

section

variable (h : StoreOk cfg s held) (hw : ItemsWf cfg s held)
include h hw

theorem ItemsWf.alloc {env : AllocEnv} {key : Bytes} {flags : Int} {exptime : UInt32} {nbytes : Nat} {curHv : UInt32}
    (hn : 2 ≤ nbytes) (hf : FreshPage s env.newslab)
    (hr : tailRepairFires cfg env curHv s 5 (s.tails (slabsClsid cfg.slabclass
      (itemMakeHeader cfg (key.length + 1) flags nbytes))) = false) :
    ItemsWf cfg (doItemAlloc cfg env s key flags exptime nbytes curHv).1
      (giveRef held (doItemAlloc cfg env s key flags exptime nbytes curHv).2) := by
  intro p hp
  rcases doItemAlloc_spec h hf key flags exptime nbytes curHv hr with he | ⟨s1, it, id, i, he, _, hk, hm⟩
  · rw [he] at hp ⊢
    exact hw p hp
  · rw [he] at hp ⊢
    dsimp only [giveRef] at hp ⊢
    by_cases hpi : p = it
    · subst hpi
      rw [hm]
      exact itemInit_wf cfg id key flags exptime hn i
    · have hp' : (s.mem p).linked = true ∨ 0 < held p := by
        rcases hp with hp | hp
        · rw [hk.linked, Bool.and_eq_true] at hp
          exact .inl hp.1
        · exact .inr ((addRef_pos hp).resolve_left hpi)
      exact (hw p hp').congr (stored_of_body (hk.body p hpi (h.carved_of hp')))

/-- An item that is found was stored, and one that is found dead is stored no longer. -/
theorem ItemsWf.get (key : Bytes) :
    ItemsWf cfg (doItemGet cfg s key (cfg.hash key)).1 (giveRef held (doItemGet cfg s key (cfg.hash key)).2) := by
  intro p hp
  rcases doItemGet_cases h key with ⟨he, _⟩ | ⟨it, s1, he, _, _, _, _, _, hm⟩ |
    ⟨it, s1, he, hl, _, _, _, _, _, _, hm⟩
  · rw [he] at hp ⊢
    exact hw p hp
  · rw [he] at hp ⊢
    obtain ⟨b, l, _⟩ := hm p
    refine (hw p (hp.imp (fun hp => ?_) id)).congr (stored_of_body b)
    rw [l, Bool.and_eq_true] at hp
    exact hp.1
  · rw [he] at hp ⊢
    obtain ⟨b, l, _⟩ := hm p
    refine (hw p ?_).congr (stored_of_body b)
    rcases hp with hp | hp
    · exact .inl (l ▸ hp)
    · rcases addRef_pos hp with rfl | hp
      · exact .inl hl
      · exact .inr hp

theorem ItemsWf.touch (key : Bytes) (exptime : UInt32) :
    ItemsWf cfg (doItemTouch cfg s key exptime (cfg.hash key)).1
      (giveRef held (doItemTouch cfg s key exptime (cfg.hash key)).2) := by
  have hget := hw.get h key
  intro p hp
  unfold doItemTouch at hp ⊢
  generalize doItemGet cfg s key (cfg.hash key) = r at hget hp ⊢
  obtain ⟨s1, _ | it⟩ := r
  · exact hget p hp
  · dsimp only at hget hp ⊢
    rw [modify_field (·.linked) rfl] at hp
    exact (hget p hp).congr (modify_field Item.stored rfl p)

omit h in
theorem ItemsWf.link {it : Ptr} (hh : 0 < held it) (hv : UInt32) : ItemsWf cfg (doItemLink cfg s it hv) held := by
  intro p hp
  obtain ⟨l1, l2, _⟩ := link_mem cfg s it hv
  by_cases hpi : p = it
  · subst hpi
    exact (hw p (.inr hh)).of_linked l2
  · obtain ⟨b, l, _⟩ := l1 p hpi
    rw [l] at hp
    exact (hw p hp).congr (stored_of_body b)

omit h in
theorem ItemsWf.replace {it newIt : Ptr} (hne : newIt ≠ it) (hh : 0 < held newIt) (hv : UInt32) :
    ItemsWf cfg (doItemReplace cfg s it newIt hv) held := by
  intro p hp
  obtain ⟨l1, l2, _⟩ := replace_mem cfg s it newIt hv hne
  by_cases hpi : p = newIt
  · subst hpi
    exact (hw p (.inr hh)).of_linked l2
  · obtain ⟨b, l, _⟩ := l1 p hpi
    rw [l, Bool.and_eq_true] at hp
    exact (hw p (hp.imp (·.1) id)).congr (stored_of_body b)

end

/-- Where an item stored or referred to after a step comes from: it was stored or
referred to before and is as well formed as it was, or it is new and well formed. -/
theorem ItemsStep.keeps_items {s s' : ItemsState} {op : ItemsOp}
    (h : StoreOk cfg s.store s.held) (hw : ItemsWf cfg s.store s.held)
    (hs : ItemsStep cfg s op s') (p : Ptr)
    (hp : (s'.store.mem p).linked = true ∨ 0 < s'.held p) : ItemWf cfg (s'.store.mem p) := by
  cases hs with
  | alloc s held env key flags exptime nbytes curHv hn hf hr => exact hw.alloc h hn hf hr p hp
  | link s held it hh hl hk hroom => exact hw.link hh _ p hp
  | unlink s held it =>
    obtain ⟨b, l, _⟩ := unlink_mem cfg s it p (cfg.hash (s.key it))
    refine (hw p (hp.imp (fun hp => ?_) id)).congr (stored_of_body b)
    rw [doItemUnlink, l, Bool.and_eq_true] at hp
    exact hp.1
  | remove s held it hh =>
    obtain ⟨b, l, _⟩ := doItemRemove_mem cfg s it p
    rw [l] at hp
    exact (hw p (hp.imp id dropRef_pos)).congr (stored_of_body b)
  | replace s held it newIt hl hh hn hk hroom =>
    have hne : newIt ≠ it := by
      rintro rfl
      rw [hl] at hn
      cases hn
    exact hw.replace hne hh _ p hp
  | update s held it =>
    obtain ⟨t, b, l, _⟩ := update_mem s it p
    rw [l] at hp
    refine (hw p hp).congr ?_
    unfold Item.stored
    rw [b]
  | get s held key hroom => exact hw.get h key p hp
  | touch s held key exptime hroom => exact hw.touch h key exptime p hp
  | flushExpired s held =>
    obtain ⟨b, l, _⟩ := flush_mem cfg s p
    exact (hw p (hp.imp l id)).congr (stored_of_body b)
  | write s held it bytes cas hh hl hb =>
    by_cases hpi : p = it
    · subst hpi
      rw [modify_mem_self]
      exact (hw p (.inr hh)).write hb
    · rw [modify_mem_of_ne hpi] at hp ⊢
      exact hw p hp
  | clock s held now oldest rebal => exact hw p hp
  | expand s held ok he hle => exact hw p hp
  | migrate s held he => exact hw p hp

/-! ### Stored items, case by case -/

section

variable {q : Ptr} {quiet : Prop} (h : StoreOk cfg s held)
include h

theorem kept_alloc {env : AllocEnv} {key : Bytes} {flags : Int} {exptime : UInt32} {nbytes : Nat} {curHv : UInt32}
    (hf : FreshPage s env.newslab)
    (hr : tailRepairFires cfg env curHv s 5 (s.tails (slabsClsid cfg.slabclass
      (itemMakeHeader cfg (key.length + 1) flags nbytes))) = false)
    (hq : ((doItemAlloc cfg env s key flags exptime nbytes curHv).1.mem q).linked = true) :
    Kept s (doItemAlloc cfg env s key flags exptime nbytes curHv).1 quiet q := by
  rcases doItemAlloc_spec h hf key flags exptime nbytes curHv hr with he | ⟨s1, it, id, i, he, _, hk, hm⟩
  · rw [he] at hq ⊢
    exact kept_of_body hq rfl
  · rw [he] at hq ⊢
    rw [hk.linked, Bool.and_eq_true, decide_eq_true_eq] at hq
    exact kept_of_body hq.1 (hk.body q hq.2 (h.carved_of (.inl hq.1)))

theorem kept_get {key : Bytes} (hq : ((doItemGet cfg s key (cfg.hash key)).1.mem q).linked = true) :
    Kept s (doItemGet cfg s key (cfg.hash key)).1 quiet q := by
  rcases doItemGet_cases h key with ⟨he, _⟩ | ⟨it, s1, he, _, _, _, _, _, hm⟩ |
    ⟨it, s1, he, _, _, _, _, _, _, _, hm⟩
  · rw [he] at hq ⊢
    exact kept_of_body hq rfl
  · rw [he] at hq ⊢
    obtain ⟨b, l, _⟩ := hm q
    rw [l, Bool.and_eq_true] at hq
    exact kept_of_body hq.1 b
  · rw [he] at hq ⊢
    obtain ⟨b, l, _⟩ := hm q
    exact kept_of_body (l ▸ hq) b

/-- Only an item that is live gets another expiry. -/
theorem kept_touch {key : Bytes} {exptime : UInt32}
    (hq : ((doItemTouch cfg s key exptime (cfg.hash key)).1.mem q).linked = true) :
    Kept s (doItemTouch cfg s key exptime (cfg.hash key)).1 quiet q := by
  have hget : ((doItemGet cfg s key (cfg.hash key)).1.mem q).linked = true → Kept s (doItemGet cfg s key (cfg.hash key)).1 quiet q :=
    kept_get h
  unfold doItemTouch at hq ⊢
  rcases doItemGet_cases h key with ⟨he, _⟩ | ⟨it, s1, he, _⟩ | ⟨it, s1, he, _, _, _, hlive, _, _, _, hm⟩
  · rw [he] at hget hq ⊢
    exact hget hq
  · rw [he] at hget hq ⊢
    exact hget hq
  · rw [he] at hq ⊢
    obtain ⟨b, l, _⟩ := hm q
    dsimp only at hq ⊢
    rw [modify_field (·.linked) rfl, l] at hq
    refine ⟨hq, (modify_field Item.stored rfl q).trans (stored_of_body b),
      .inl ((modify_field (·.time) rfl q).trans (time_of_body b)), fun _ => ?_⟩
    by_cases hqi : q = it
    · subst hqi
      rw [flushedOrExpired_eq, Bool.or_eq_false_iff] at hlive
      exact .inr ⟨hlive.1, .inr hlive.2⟩
    · rw [modify_mem_of_ne hqi]
      exact .inl ⟨time_of_body b, exptime_of_body b⟩

omit h in
theorem kept_update {it : Ptr} (hq : ((doItemUpdate s it).mem q).linked = true)
    (hquiet : quiet → flushed s (s.mem it) = false) : Kept s (doItemUpdate s it) quiet q := by
  obtain ⟨t, b, l, _, ht⟩ := update_mem s it q
  have hstored : ((doItemUpdate s it).mem q).stored = (s.mem q).stored := by
    unfold Item.stored
    rw [b]
  have htime : ((doItemUpdate s it).mem q).time = t := by
    change ((doItemUpdate s it).mem q).body.time = t
    rw [b]
  have hexp : ((doItemUpdate s it).mem q).exptime = (s.mem q).exptime := by
    change ((doItemUpdate s it).mem q).body.exptime = _
    rw [b]
    rfl
  refine ⟨l ▸ hq, hstored, ht.imp htime.trans fun ht => htime.trans ht.2, fun hq' => ?_⟩
  rcases ht with ht | ⟨hqi, _⟩
  · exact .inl ⟨htime.trans ht, hexp⟩
  · subst hqi
    exact .inr ⟨hquiet hq', .inl hexp⟩

end

/-- An item stored after a step was stored before, or the step linked it. -/
theorem ItemsStep.kept {s s' : ItemsState} {op : ItemsOp}
    (h : StoreOk cfg s.store s.held) (hw : ItemsWf cfg s.store s.held)
    (hs : ItemsStep cfg s op s') (q : Ptr) (hq : (s'.store.mem q).linked = true) :
    Kept s.store s'.store (Quiet s op) q ∨
      LinksItem op q ∧ JustLinked cfg s.store s'.store q := by
  cases hs with
  | alloc s held env key flags exptime nbytes curHv hn hf hr => exact .inl (kept_alloc h hf hr hq)
  | link s held it hh hl hk hroom =>
    obtain ⟨l1, l2, l3, _⟩ := link_mem cfg s it (cfg.hash (s.key it))
    by_cases hqi : q = it
    · subst hqi
      right
      exact ⟨rfl, linked_cas (hw q (.inr hh)).hasCas l2,
        congrArg (·.2.2.2) (env_link cfg s q (cfg.hash (s.key q))).1, linked_time l2⟩
    · obtain ⟨b, l, _⟩ := l1 q hqi
      exact .inl (kept_of_body (l ▸ hq) b)
  | unlink s held it =>
    obtain ⟨b, l, _⟩ := unlink_mem cfg s it q (cfg.hash (s.key it))
    rw [doItemUnlink, l, Bool.and_eq_true] at hq
    exact .inl (kept_of_body hq.1 b)
  | remove s held it hh =>
    obtain ⟨b, l, _⟩ := doItemRemove_mem cfg s it q
    exact .inl (kept_of_body (l ▸ hq) b)
  | replace s held it newIt hl hh hn hk hroom =>
    have hne : newIt ≠ it := by
      rintro rfl
      rw [hl] at hn
      cases hn
    obtain ⟨l1, l2, _, _, l5, _⟩ := replace_mem cfg s it newIt (cfg.hash (s.key it)) hne
    by_cases hqi : q = newIt
    · subst hqi
      right
      exact ⟨rfl, linked_cas (hw q (.inr hh)).hasCas l2, congrArg (·.2.2.2) l5, linked_time l2⟩
    · obtain ⟨b, l, _⟩ := l1 q hqi
      rw [l, Bool.and_eq_true] at hq
      exact .inl (kept_of_body hq.1 b)
  | update s held it => exact .inl (kept_update hq id)
  | get s held key hroom => exact .inl (kept_get h hq)
  | touch s held key exptime hroom => exact .inl (kept_touch h hq)
  | flushExpired s held =>
    obtain ⟨b, l, _⟩ := flush_mem cfg s q
    exact .inl (kept_of_body (l hq) b)
  | write s held it bytes cas hh hl hb =>
    left
    by_cases hqi : q = it
    · subst hqi
      rw [modify_mem_self, itemSetCas_field (·.linked) (fun _ _ => rfl)] at hq
      rw [hl] at hq
      cases hq
    · rw [modify_mem_of_ne hqi] at hq
      exact kept_of_body hq (by rw [modify_mem_of_ne hqi])
  | clock s held now oldest rebal => exact .inl (kept_of_body hq rfl)
  | expand s held ok he hle => exact .inl (kept_of_body hq rfl)
  | migrate s held he => exact .inl (kept_of_body hq rfl)

/-- The clock and the flush mark after a step, and how many `cas` uniques it used. -/
theorem ItemsStep.env (h : StoreOk cfg s held) {s' : ItemsState} {op : ItemsOp}
    (hs : ItemsStep cfg ⟨s, held⟩ op s') :
    (s'.store.casId = s.casId ∨ Links op ∧ s'.store.casId = s.casId + 1) ∧
      (Timeless op → s'.store.currentTime = s.currentTime ∧
        s'.store.oldestLive = s.oldestLive ∧ s'.store.slabRebal = s.slabRebal) := by
  have hsame : ∀ s1 : Store, s1.env = s.env →
      (s1.casId = s.casId ∨ Links op ∧ s1.casId = s.casId + 1) ∧
      (Timeless op → s1.currentTime = s.currentTime ∧ s1.oldestLive = s.oldestLive ∧
        s1.slabRebal = s.slabRebal) := by
    intro s1 he
    exact ⟨.inl (congrArg (·.2.2.2) he), fun _ => ⟨congrArg (·.1) he, congrArg (·.2.1) he,
      congrArg (·.2.2.1) he⟩⟩
  have hlink : Links op → ∀ s1 : Store, s1.env = (s.currentTime, s.oldestLive, s.slabRebal,
      if cfg.useCas then s.casId + 1 else s.casId) →
      (s1.casId = s.casId ∨ Links op ∧ s1.casId = s.casId + 1) ∧
      (Timeless op → s1.currentTime = s.currentTime ∧ s1.oldestLive = s.oldestLive ∧
        s1.slabRebal = s.slabRebal) := by
    intro hop s1 he
    have hid : s1.casId = if cfg.useCas then s.casId + 1 else s.casId := congrArg (·.2.2.2) he
    refine ⟨?_, fun _ => ⟨congrArg (·.1) he, congrArg (·.2.1) he, congrArg (·.2.2.1) he⟩⟩
    rw [hid]
    cases cfg.useCas
    · exact .inl rfl
    · exact .inr ⟨hop, rfl⟩
  cases hs with
  | alloc _ _ env key flags exptime nbytes curHv hn hf hr =>
    rcases doItemAlloc_spec h hf key flags exptime nbytes curHv hr with
      he | ⟨s1, it, id, i, he, _, hk, _⟩
    · rw [he]
      exact hsame s rfl
    · rw [he]
      exact hsame s1 hk.env
  | link _ _ it hh hl hk hroom => exact hlink trivial _ (env_link cfg s it _).1
  | unlink _ _ it => exact hsame _ (env_unlink cfg s it _).1
  | remove _ _ it hh => exact hsame _ (env_doItemRemove cfg s it).1
  | replace _ _ it newIt hl hh hn hk hroom =>
    have hne : newIt ≠ it := by
      rintro rfl
      rw [hl] at hn
      cases hn
    obtain ⟨_, _, _, _, l5, _⟩ := replace_mem cfg s it newIt (cfg.hash (s.key it)) hne
    exact hlink trivial _ l5
  | update _ _ it => exact hsame _ (env_update s it).1
  | get _ _ key hroom =>
    rcases doItemGet_cases h key with ⟨he, _⟩ | ⟨it, s1, he, _, _, _, hv, _⟩ |
      ⟨it, s1, he, _, _, _, _, hv, _⟩
    · rw [he]
      exact hsame s rfl
    · rw [he]
      exact hsame s1 hv
    · rw [he]
      exact hsame s1 hv
  | touch _ _ key exptime hroom =>
    rcases doItemGet_cases h key with ⟨he, _⟩ | ⟨it, s1, he, _, _, _, hv, _⟩ |
      ⟨it, s1, he, _, _, _, _, hv, _⟩
    · unfold doItemTouch
      rw [he]
      exact hsame s rfl
    · unfold doItemTouch
      rw [he]
      exact hsame s1 hv
    · unfold doItemTouch
      rw [he]
      exact hsame _ hv
  | flushExpired => exact hsame _ (flush_mem cfg s 0).2.2.1
  | write _ _ it bytes cas hh hl hb => exact hsame _ rfl
  | clock _ _ now oldest rebal => exact ⟨.inl rfl, fun hq => absurd hq id⟩
  | expand _ _ ok he hle => exact hsame _ rfl
  | migrate _ _ he => exact hsame _ rfl

/-- Fewer than `2 ^ 64` links so far, and room for one more. -/
def LinksLeft (s : Store) : Prop := s.casId.toNat + 1 < 2 ^ 64

instance (s : Store) : Decidable (LinksLeft s) :=
  inferInstanceAs (Decidable (s.casId.toNat + 1 < 2 ^ 64))

theorem toNat_succ_of_left (h : LinksLeft s) : (s.casId + 1).toNat = s.casId.toNat + 1 := by
  unfold LinksLeft at h
  rw [UInt64.toNat_add]
  simp only [UInt64.reduceToNat]
  omega

theorem itemGetCas_stored {i j : Item} (h : i.stored = j.stored) : itemGetCas i = itemGetCas j :=
  stored_field itemGetCas (fun _ => rfl) h

theorem ItemsStep.keeps_wf (hc : cfg.useCas = true) {s s' : ItemsState} {op : ItemsOp}
    (h : StoreOk cfg s.store s.held) (hw : StoreWf cfg s.store s.held) (hleft : Links op → LinksLeft s.store)
    (hs : ItemsStep cfg s op s') :
    StoreWf cfg s'.store s'.held ∧ s.store.casId.toNat ≤ s'.store.casId.toNat := by
  have hmono : s.store.casId.toNat ≤ s'.store.casId.toNat := by
    rcases (hs.env h).1 with he | ⟨hop, he⟩
    · rw [he]
    · rw [he, toNat_succ_of_left (hleft hop)]
      omega
  refine ⟨⟨hs.keeps_items h hw.items, fun p hp => ?_⟩, hmono⟩
  rcases hs.kept h hw.items p hp with hk | ⟨_, hk⟩
  · rw [itemGetCas_stored hk.stored]
    exact (hw.cas p hk.linked).trans hmono
  · rw [hk.cas, hk.casId, linkCas_eq hc, if_pos hc]

end RamCube
