import RamCube.Store.Binding

/-! # Storing refines a map

`storeSpec` says what a storage command does to the entry a client finds under its
key. `do_store_item` answers as it does and binds what it binds, leaves the other
keys alone, and gives each entry it binds a `cas` unique never given before. -/
namespace RamCube

variable {cfg : Settings} {s s' : Store} {it n : Ptr} {held held' : Ptr → Nat} {key : Bytes}

/-- The answer to a storage command, and the entry it binds if it binds one. -/
def storeSpec (comm : NRead) (old : Option Entry) (new : Entry) (cas : UInt64) :
    StoreItemType × Option Entry :=
  match comm, old with
  | .add, some _ => (.NOT_STORED, none)
  | .replace, none | .append, none | .prepend, none => (.NOT_STORED, none)
  | .cas, none => (.NOT_FOUND, none)
  | .cas, some e =>
    if new.cas = e.cas then (.STORED, some { new with cas := cas }) else (.EXISTS, none)
  | .append, some e | .prepend, some e =>
    if new.cas ≠ 0 ∧ new.cas ≠ e.cas then (.EXISTS, none)
    else (.STORED, some (mergedEntry comm e new cas))
  | _, _ => (.STORED, some { new with cas := cas })

/-- From `s` to `s'` the map changed as `spec` says, and the command answered `r`; `n` is
the item whose `cas` the client is told. -/
structure StoreRefines (cfg : Settings) (s s' : Store) (key : Bytes)
    (spec : StoreItemType × Option Entry) (r : StoreItemType × Ptr) : Prop where
  result : r.1 = spec.1
  bound : ∀ e, spec.2 = some e → binding cfg s' key = some e ∧
    lookup cfg s' key = (if visible s e then some e else none) ∧ itemGetCas (s'.mem r.2) = e.cas
  unchanged : spec.2 = none → lookup cfg s' key = lookup cfg s key
  others : ∀ k, k ≠ key → lookup cfg s' k = lookup cfg s k

theorem StoreRefines.of_bound {e : Entry} (h : StoreOk cfg s held) (h' : StoreOk cfg s' held')
    (ho : OthersKept s s' key) (hb : Bound s' key n e) :
    StoreRefines cfg s s' key (.STORED, some e) (.STORED, n) where
  result := rfl
  bound := fun e' he => by
    have hv : visible s' e = visible s e := by
      unfold visible
      rw [ho.now, ho.mark]
    rw [← Option.some.inj he]
    refine ⟨hb.binding h', ?_, congrArg Entry.cas hb.entry⟩
    rw [hb.lookup h', hv]
  unchanged := fun he => nomatch he
  others := fun _ hk => ho.lookup h h' hk

theorem StoreRefines.of_same {r : StoreItemType} (h : StoreOk cfg s held) (h' : StoreOk cfg s' held')
    (ho : OthersKept s s' key) (hl : lookup cfg s' key = lookup cfg s key) :
    StoreRefines cfg s s' key (r, none) (r, n) where
  result := rfl
  bound := fun _ he => nomatch he
  unchanged := fun _ => hl
  others := fun _ hk => ho.lookup h h' hk

/-- The copy of an append or prepend gets a chunk, and no live item gives up its own. -/
def MergeRoom (cfg : Settings) (env : AllocEnv) (s : Store) (it : Ptr) (comm : NRead) : Prop :=
  ∀ s' old, doItemGet cfg s (s.key it) (cfg.hash (s.key it)) = (s', some old) →
    MergeWanted comm (s'.mem it) (s'.mem old) →
    ∃ s2 n, doItemAlloc cfg env s' (s.key it) (itemFlags (s'.mem old)) (s'.mem old).exptime
        ((s'.mem it).nbytes + (s'.mem old).nbytes - 2) (cfg.hash (s.key it)) = (s2, some n) ∧
      ((s'.mem n).linked = true → flushedOrExpired s' (s'.mem n) = true)

theorem run_keeps {s₁ s₂ : ItemsState} (h : StoreOk cfg s₁.store s₁.held)
    (hr : ∃ ops, Run (QuietStep cfg fun _ _ => True) s₁ ops s₂) : StoreOk cfg s₂.store s₂.held := by
  obtain ⟨ops, hr⟩ := hr
  exact hr.invariant (I := fun s => StoreOk cfg s.store s.held) (fun _ _ _ hi hs => hs.2.keeps hi) h

theorem linkCas_congr (he : s'.env = s.env) : linkCas cfg s' = linkCas cfg s := by
  have hid : s'.casId = s.casId := congrArg (·.2.2.2) he
  unfold linkCas
  rw [hid]

theorem Missed.lookup_none (hg : Missed cfg s held key s') (h : StoreOk cfg s held)
    (hreb : s.slabRebal = none) : lookup cfg s key = none ∧ lookup cfg s' key = none := by
  refine ⟨lookup_absent h fun p hl hk => ?_, lookup_absent (hg.ok h) fun p hl hk =>
    absurd hk (hg.absent p hl)⟩
  refine (hg.dead p hl hk).resolve_left fun hr => ?_
  unfold inRebalance at hr
  rw [hreb] at hr
  cases hr

theorem Got.lookup_old {old : Ptr} (hg : Got cfg s held key s' old) (h : StoreOk cfg s held) :
    lookup cfg s key = some (itemEntry (s'.mem old)) := by
  have hk : s.key old = key := (key_of_body (hg.body old)).symm.trans hg.key
  rw [lookup_eq h ((hg.linked old).symm.trans hg.stored) hk, hg.live,
    itemEntry_of_body (hg.body old)]
  rfl

/-- Nothing that happens to the old item's chunk apart from its contents matters. -/
theorem lookup_of_kept {old : Ptr} {e : Entry} (h : StoreOk cfg s held)
    (hl : (s.mem old).linked = true) (hk : s.key old = key)
    (hd : flushedOrExpired s (s.mem old) = false) (he : itemEntry (s.mem old) = e) :
    lookup cfg s key = some e :=
  (lookup_some h).mpr ⟨old, hl, hk, hd, he⟩

theorem Got.release {old : Ptr} (hg : Got cfg s held key s' old) (h : StoreOk cfg s held) :
    lookup cfg (doItemRemove cfg s' old) key = lookup cfg s key := by
  have h' : StoreOk cfg (doItemRemove cfg s' old) held :=
    run_keeps (hg.ok h) (giveBack_run s' held old)
  obtain ⟨hb, hl, _⟩ := doItemRemove_mem cfg s' old old
  have hv := (env_doItemRemove cfg s' old).1.trans hg.env
  rw [hg.lookup_old h]
  exact lookup_of_kept h' (hl.trans hg.stored) ((key_of_body hb).trans hg.key)
    ((flushedOrExpired_congr hv (hb.trans (hg.body old))).trans hg.live) (itemEntry_of_body hb)

/-- An item moved up is not newer than the clock was at its last move, so it stays alive. -/
theorem Got.promote {old : Ptr} (hg : Got cfg s held key s' old) (h : StoreOk cfg s held)
    (ho : OrderOk s) :
    lookup cfg (doItemRemove cfg (doItemUpdate s' old) old) key = lookup cfg s key := by
  have h' : StoreOk cfg (doItemRemove cfg (doItemUpdate s' old) old) held :=
    run_keeps (hg.ok h) (run_trans (run_step (update_step hg.unflushed)) (giveBack_run _ held old))
  obtain ⟨hb, hl, _⟩ := doItemRemove_mem cfg (doItemUpdate s' old) old old
  obtain ⟨t, hub, hul, _, ht⟩ := update_mem s' old old
  have hbody : ((doItemRemove cfg (doItemUpdate s' old) old).mem old).body =
      { (s.mem old).body with time := t } := by rw [hb, hub, hg.body]
  have hnow : (doItemRemove cfg (doItemUpdate s' old) old).currentTime = s.currentTime :=
    congrArg (·.1) ((env_doItemRemove cfg _ old).1.trans ((env_update s' old).1.trans hg.env))
  have hmark : (doItemRemove cfg (doItemUpdate s' old) old).oldestLive = s.oldestLive :=
    congrArg (·.2.1) ((env_doItemRemove cfg _ old).1.trans ((env_update s' old).1.trans hg.env))
  have hpast := ho.past old ((hg.linked old).symm.trans hg.stored)
  have htime : (s.mem old).time ≤ t := by
    rcases ht with ht | ⟨_, ht⟩
    · rw [ht, time_of_body (hg.body old)]
      exact UInt32.le_refl _
    · rw [ht, show s'.currentTime = s.currentTime from congrArg (·.1) hg.env]
      exact hpast
  have hdead : flushedOrExpired (doItemRemove cfg (doItemUpdate s' old) old)
      ((doItemRemove cfg (doItemUpdate s' old) old).mem old) = false := by
    have hlive := hg.live
    have ht' : ((doItemRemove cfg (doItemUpdate s' old) old).mem old).time = t := by
      change ((doItemRemove cfg (doItemUpdate s' old) old).mem old).body.time = t
      rw [hbody]
    have he' : ((doItemRemove cfg (doItemUpdate s' old) old).mem old).exptime =
        (s.mem old).exptime := by
      change ((doItemRemove cfg (doItemUpdate s' old) old).mem old).body.exptime = _
      rw [hbody]
      rfl
    unfold flushedOrExpired at hlive ⊢
    rw [hnow, hmark, ht', he']
    rw [Bool.or_eq_false_iff] at hlive ⊢
    refine ⟨?_, hlive.2⟩
    by_contra hc
    simp only [Bool.not_eq_false, Bool.and_eq_true, decide_eq_true_eq] at hc
    have hold := hlive.1
    simp only [hc.1.1, hc.1.2, decide_true, Bool.true_and, decide_eq_false_iff_not] at hold
    exact hold (UInt32.le_trans htime hc.2)
  rw [hg.lookup_old h]
  refine lookup_of_kept h' (hl.trans (hul.trans hg.stored)) ?_ hdead ?_
  · refine (key_of_body hb).trans (Eq.trans ?_ hg.key)
    change itemKey ((doItemUpdate s' old).mem old).body = itemKey (s'.mem old)
    rw [hub]
    rfl
  · change itemEntry ((doItemRemove cfg (doItemUpdate s' old) old).mem old).body = _
    rw [hbody, itemEntry_of_body (hg.body old)]
    rfl

/-! ## The three ways to bind the key -/

theorem refines_linked (hg : Missed cfg s held (s.key it) s') (h : StoreOk cfg s held)
    (hw : ItemsWf cfg s held) {env : AllocEnv} {comm : NRead} (g : StoreGuard cfg env s held it comm) :
    StoreRefines cfg s (doItemLink cfg s' it (cfg.hash (s.key it))) (s.key it)
      (.STORED, some { itemEntry (s.mem it) with cas := linkCas cfg s }) (.STORED, it) := by
  have hk : s'.key it = s.key it := key_of_body (hg.body it)
  have hwf : ItemWf cfg (s'.mem it) :=
    (hw it (.inr g.held)).congr (stored_of_body (hg.body it))
  have hb := bound_link hwf
  have ho := othersKept_link cfg s' it
  rw [hk] at hb ho
  rw [linkCas_congr hg.env, itemEntry_of_body (hg.body it)] at hb
  exact .of_bound h (run_keeps (hg.ok h) (storeOver_missed hg h g trivial)) (hg.others.trans ho) hb

theorem refines_replaced {old : Ptr} (hg : Got cfg s held (s.key it) s' old) (h : StoreOk cfg s held)
    (hw : ItemsWf cfg s held) {env : AllocEnv} {comm : NRead} (g : StoreGuard cfg env s held it comm) :
    StoreRefines cfg s (doItemRemove cfg (doItemReplace cfg s' old it (cfg.hash (s.key it))) old)
      (s.key it) (.STORED, some { itemEntry (s.mem it) with cas := linkCas cfg s })
      (.STORED, it) := by
  have hk : s'.key it = s.key it := key_of_body (hg.body it)
  have hne : it ≠ old := hg.ne g.unlinked
  have hwf : ItemWf cfg (s'.mem it) :=
    (hw it (.inr g.held)).congr (stored_of_body (hg.body it))
  have hb := (bound_replace hwf hne (cfg.hash (s.key it))).remove cfg old
  have ho := (othersKept_replace cfg hne hg.key hk (cfg.hash (s.key it))).trans
    (othersKept_remove cfg _ old _)
  rw [hk, linkCas_congr hg.env, itemEntry_of_body (hg.body it)] at hb
  exact .of_bound h (run_keeps (hg.ok h) (storeOver_got hg g trivial)) (hg.others.trans ho) hb

/-- A merged copy that gets a chunk is bound to the key. The other keys are left alone if
the chunk held nothing alive. -/
theorem storeMerged_bound {old : Ptr} {s2 : Store} (hg : Got cfg s held (s.key it) s' old) (h : StoreOk cfg s held)
    (hw : ItemsWf cfg s held) {env : AllocEnv} {comm : NRead} (g : StoreGuard cfg env s held it comm)
    (he : doItemGet cfg s (s.key it) (cfg.hash (s.key it)) = (s', some old))
    (hc : MergeWanted comm (s'.mem it) (s'.mem old))
    (hal : doItemAlloc cfg env s' (s.key it) (itemFlags (s'.mem old)) (s'.mem old).exptime
      ((s'.mem it).nbytes + (s'.mem old).nbytes - 2) (cfg.hash (s.key it)) = (s2, some n)) :
    (storeMerged cfg env s' old it comm (cfg.hash (s.key it))).2 = (.STORED, n) ∧
    Bound (storeMerged cfg env s' old it comm (cfg.hash (s.key it))).1 (s.key it) n
      (mergedEntry comm (itemEntry (s'.mem old)) (itemEntry (s.mem it)) (linkCas cfg s)) ∧
    (((s'.mem n).linked = true → flushedOrExpired s' (s'.mem n) = true) →
      OthersKept s (storeMerged cfg env s' old it comm (cfg.hash (s.key it))).1 (s.key it)) := by
  have hk : s'.key it = s.key it := key_of_body (hg.body it)
  have hwi : ItemWf cfg (s'.mem it) :=
    (hw it (.inr g.held)).congr (stored_of_body (hg.body it))
  have hwo : ItemWf cfg (s'.mem old) := (hw old (.inl ((hg.linked old).symm.trans
    hg.stored))).congr (stored_of_body (hg.body old))
  have hok := hg.ok h
  have ha := g.alloc s' old he hc
  obtain ⟨s2', n', id, c, hal', _, _, hmem⟩ := (doItemAlloc_spec hok ha.page (s.key it)
    (itemFlags (s'.mem old)) (s'.mem old).exptime ((s'.mem it).nbytes + (s'.mem old).nbytes - 2)
    (cfg.hash (s.key it)) ha.noRepair).resolve_left (by rw [hal]; exact fun hx => nomatch hx)
  rw [hal] at hal'
  cases hal'
  obtain ⟨_, hfc⟩ := freshCopy hok ha hal (mergeData_bytes comm (s2.mem old) (s2.mem it) (s2.mem n))
  have hno : old ≠ n := hfc.ne (addRef_self held old)
  have hni : it ≠ n := hfc.ne (addRef_other g.held (hg.ne g.unlinked))
  -- the two items copied from are as they were before the allocation
  have hbo : (s2.mem old).body = (s'.mem old).body := by
    have hb := (hfc.others old hno (.inl hg.stored)).1
    rwa [modify_mem_of_ne hno] at hb
  have hbi : (s2.mem it).body = (s'.mem it).body := by
    have hb := (hfc.others it hni (.inr (addRef_other g.held (hg.ne g.unlinked)))).1
    rwa [modify_mem_of_ne hni] at hb
  have hwi2 := hwi.congr (stored_of_body hbi)
  have hwo2 := hwo.congr (stored_of_body hbo)
  have hflags : itemFlags (s'.mem old) = itemFlags (s2.mem old) :=
    congrArg Entry.flags (itemEntry_of_body hbo).symm
  have hexp : (s'.mem old).exptime = (s2.mem old).exptime := (exptime_of_body hbo).symm
  have hno' : (s'.mem old).nbytes = (s2.mem old).nbytes :=
    stored_field (·.nbytes) (fun _ => rfl) (stored_of_body hbo).symm
  have hni' : (s'.mem it).nbytes = (s2.mem it).nbytes :=
    stored_field (·.nbytes) (fun _ => rfl) (stored_of_body hbi).symm
  have hentry := mergeData_entry comm hwo2 hwi2 id (s.key it) c (linkCas cfg s)
  rw [← hflags, ← hexp, ← hno', ← hni', ← hmem, itemEntry_of_body hbo, itemEntry_of_body hbi,
    itemEntry_of_body (hg.body it)] at hentry
  have hcopy : (s2.modify n fun n => mergeData comm (s2.mem old) (s2.mem it) n).mem n =
      mergeData comm (s2.mem old) (s2.mem it) (s2.mem n) := modify_mem_self
  have hwn : ItemWf cfg ((s2.modify n fun n => mergeData comm (s2.mem old) (s2.mem it) n).mem n) := by
    obtain ⟨bytes, hbytes, hsame⟩ := mergeData_bytes comm (s2.mem old) (s2.mem it) (s2.mem n)
    have hinit : ItemWf cfg (s2.mem n) := by
      rw [hmem]
      exact itemInit_wf cfg id _ _ _ (by have := hwi.nbytes; have := hwo.nbytes; omega) c
    rw [hcopy, hbytes, ← itemSetCas_self { s2.mem n with bytes := bytes }]
    exact hinit.write hsame
  have hkeyo : (s2.modify n fun n => mergeData comm (s2.mem old) (s2.mem it) n).key old =
      s.key it := (key_of_body (hfc.others old hno (.inl hg.stored)).1).trans hg.key
  have hb := ((bound_replace hwn (Ne.symm hno) (cfg.hash (s.key it))).remove cfg old).remove cfg n
  have ho := (othersKept_replace cfg (Ne.symm hno) hkeyo hfc.key (cfg.hash (s.key it))).trans
    ((othersKept_remove cfg _ old _).trans (othersKept_remove cfg _ n _))
  rw [hfc.key, linkCas_congr (hfc.env.trans hg.env), hcopy, hentry] at hb
  unfold storeMerged
  have hal' : doItemAlloc cfg env s' (itemKey (s'.mem it)) (itemFlags (s'.mem old))
    (s'.mem old).exptime ((s'.mem it).nbytes + (s'.mem old).nbytes - 2) (cfg.hash (s.key it)) =
      (s2, some n) := by
    rw [← hal, show itemKey (s'.mem it) = s.key it from hk]
  simp only [hal']
  exact ⟨trivial, hb, fun hlive => hg.others.trans ((hfc.otherKeys hlive).trans ho)⟩

theorem refines_merged {old : Ptr} (hg : Got cfg s held (s.key it) s' old) (h : StoreOk cfg s held)
    (hw : ItemsWf cfg s held) {env : AllocEnv} {comm : NRead} (g : StoreGuard cfg env s held it comm)
    (hm : MergeRoom cfg env s it comm)
    (he : doItemGet cfg s (s.key it) (cfg.hash (s.key it)) = (s', some old))
    (hc : MergeWanted comm (s'.mem it) (s'.mem old)) :
    StoreRefines cfg s (storeMerged cfg env s' old it comm (cfg.hash (s.key it))).1 (s.key it)
      (.STORED, some (mergedEntry comm (itemEntry (s'.mem old)) (itemEntry (s.mem it))
        (linkCas cfg s)))
      (storeMerged cfg env s' old it comm (cfg.hash (s.key it))).2 := by
  have hfinal := run_keeps (hg.ok h) (storeMerged_got hg h hw g he hc fun _ => trivial)
  obtain ⟨s2, n, hal, hlive⟩ := hm s' old he hc
  obtain ⟨hres, hb, hothers⟩ := storeMerged_bound hg h hw g he hc hal
  rw [hres]
  exact .of_bound h hfinal (hothers hlive) hb

/-! ## The command -/

theorem doStoreItem_missed (hg : Missed cfg s held (s.key it) s') (h : StoreOk cfg s held)
    (hw : ItemsWf cfg s held) (hreb : s.slabRebal = none) {env : AllocEnv} {comm : NRead}
    (g : StoreGuard cfg env s held it comm)
    (he : doItemGet cfg s (s.key it) (cfg.hash (s.key it)) = (s', none)) :
    StoreRefines cfg s (doStoreItem cfg env s it comm (cfg.hash (s.key it))).1 (s.key it)
      (storeSpec comm none (itemEntry (s.mem it)) (linkCas cfg s))
      (doStoreItem cfg env s it comm (cfg.hash (s.key it))).2 := by
  obtain ⟨hl, hl'⟩ := hg.lookup_none h hreb
  have hlink := refines_linked hg h hw g
  have hsame : ∀ r : StoreItemType, StoreRefines cfg s s' (s.key it) (r, none) (r, it) := fun r =>
    .of_same h (hg.ok h) hg.others (hl'.trans hl.symm)
  unfold doStoreItem
  rw [he]
  cases comm with
  | add => exact hlink
  | set => exact hlink
  | replace => exact hsame .NOT_STORED
  | append => exact hsame .NOT_STORED
  | prepend => exact hsame .NOT_STORED
  | cas => exact hsame .NOT_FOUND

theorem doStoreItem_got {old : Ptr} (hg : Got cfg s held (s.key it) s' old) (h : StoreOk cfg s held)
    (hw : ItemsWf cfg s held) (ho : OrderOk s) {env : AllocEnv} {comm : NRead}
    (g : StoreGuard cfg env s held it comm) (hm : MergeRoom cfg env s it comm)
    (he : doItemGet cfg s (s.key it) (cfg.hash (s.key it)) = (s', some old)) :
    StoreRefines cfg s (doStoreItem cfg env s it comm (cfg.hash (s.key it))).1 (s.key it)
      (storeSpec comm (some (itemEntry (s'.mem old))) (itemEntry (s.mem it)) (linkCas cfg s))
      (doStoreItem cfg env s it comm (cfg.hash (s.key it))).2 := by
  have hreplace := refines_replaced hg h hw g
  have hsame : ∀ r : StoreItemType, StoreRefines cfg s (doItemRemove cfg s' old) (s.key it)
      (r, none) (r, it) := fun r =>
    .of_same h (run_keeps (hg.ok h) (giveBack_run s' held old))
      (hg.others.trans (othersKept_remove cfg s' old _)) (hg.release h)
  have hcas : (itemEntry (s.mem it)).cas = itemGetCas (s'.mem it) :=
    (itemGetCas_of_body (hg.body it)).symm
  have hcold : (itemEntry (s'.mem old)).cas = itemGetCas (s'.mem old) := rfl
  unfold doStoreItem
  rw [he]
  cases comm with
  | add =>
    have hu := othersKept_update s' old
    rw [hg.key] at hu
    exact .of_same h (run_keeps (hg.ok h) (run_trans (run_step (update_step hg.unflushed))
      (giveBack_run _ held old))) (hg.others.trans (hu.trans (othersKept_remove cfg _ old _)))
      (hg.promote h ho)
  | set => exact hreplace
  | replace => exact hreplace
  | append =>
    dsimp only [storeSpec]
    rw [hcas, hcold]
    by_cases hc : itemGetCas (s'.mem it) ≠ 0 ∧ itemGetCas (s'.mem it) ≠ itemGetCas (s'.mem old)
    · rw [if_pos hc, if_pos hc]
      exact hsame .EXISTS
    · rw [if_neg hc, if_neg hc]
      exact refines_merged hg h hw g hm he ⟨.inl rfl, hc⟩
  | prepend =>
    dsimp only [storeSpec]
    rw [hcas, hcold]
    by_cases hc : itemGetCas (s'.mem it) ≠ 0 ∧ itemGetCas (s'.mem it) ≠ itemGetCas (s'.mem old)
    · rw [if_pos hc, if_pos hc]
      exact hsame .EXISTS
    · rw [if_neg hc, if_neg hc]
      exact refines_merged hg h hw g hm he ⟨.inr rfl, hc⟩
  | cas =>
    dsimp only [storeSpec]
    rw [hcas, hcold]
    by_cases hc : itemGetCas (s'.mem it) = itemGetCas (s'.mem old)
    · rw [if_pos hc, if_pos hc]
      exact hreplace
    · rw [if_neg hc, if_neg hc]
      exact hsame .EXISTS

/-- `do_store_item` on a store in order refines `storeSpec`. -/
theorem doStoreItem_spec (h : StoreOk cfg s held) (hw : ItemsWf cfg s held) (ho : OrderOk s)
    (hreb : s.slabRebal = none) {env : AllocEnv} {comm : NRead}
    (g : StoreGuard cfg env s held it comm) (hm : MergeRoom cfg env s it comm) :
    StoreRefines cfg s (doStoreItem cfg env s it comm (cfg.hash (s.key it))).1 (s.key it)
      (storeSpec comm (lookup cfg s (s.key it)) (itemEntry (s.mem it)) (linkCas cfg s))
      (doStoreItem cfg env s it comm (cfg.hash (s.key it))).2 := by
  rcases doItemGet_outcome h g.roomAt with ⟨s', he, hg⟩ | ⟨s', old, he, hg⟩
  · rw [(hg.lookup_none h hreb).1]
    exact doStoreItem_missed hg h hw hreb g he
  · rw [hg.lookup_old h]
    exact doStoreItem_got hg h hw ho g hm he

/-! ## Reachable stores -/

/-- The clock does not run backwards and there have been fewer than `2 ^ 64` links. -/
def Sane (s : ItemsState) (op : ItemsOp) : Prop := Forward s op ∧ (Links op → LinksLeft s.store)

/-- What holds of the store throughout a run. -/
structure StoreInv (cfg : Settings) (s : ItemsState) : Prop where
  ok : StoreOk cfg s.store s.held
  wf : StoreWf cfg s.store s.held
  order : OrderOk s.store

theorem storeInv_init (cfg : Settings) (n : Nat) : StoreInv cfg (itemsInit n) where
  ok := storeOk_init cfg n
  wf := {
    items := fun p hp => by simp [itemsInit, storeInit, emptyItem] at hp
    cas := fun p hp => by simp [itemsInit, storeInit, emptyItem] at hp }
  order := orderOk_init n

/-- One step keeps the invariant. The `cas` uniques of all items stored after it are at
most the last one given, which does not fall. -/
theorem StoreInv.step (hc : cfg.useCas = true) {s s' : ItemsState} {op : ItemsOp}
    (h : StoreInv cfg s) (hq : Sane s op) (hs : ItemsStep cfg s op s') :
    StoreInv cfg s' ∧ s.store.casId.toNat ≤ s'.store.casId.toNat := by
  obtain ⟨hw, hle⟩ := hs.keeps_wf hc h.ok h.wf hq.2
  exact ⟨⟨hs.keeps h.ok, hw, hs.keeps_order h.ok h.wf.items h.order hq.1⟩, hle⟩

theorem StoreInv.run (hc : cfg.useCas = true) {s s' : ItemsState} {ops : List ItemsOp}
    (h : StoreInv cfg s) (hr : Run (Guarded Sane (ItemsStep cfg)) s ops s') :
    StoreInv cfg s' ∧ s.store.casId.toNat ≤ s'.store.casId.toNat := by
  induction hr with
  | nil => exact ⟨h, Nat.le_refl _⟩
  | cons hs _ ih =>
    obtain ⟨h1, hle⟩ := h.step hc hs.1 hs.2
    obtain ⟨h2, hle'⟩ := ih h1
    exact ⟨h2, hle.trans hle'⟩

/-- In every reachable store a storage command refines `storeSpec`, and the `cas` of the
entry it binds is greater than that of every item stored at any time before. -/
theorem store_command_refines (hc : cfg.useCas = true) {k : Nat} {as bs : List ItemsOp}
    {t st : ItemsState} (hr : Run (Guarded Sane (ItemsStep cfg)) (itemsInit k) as t)
    (hr' : Run (Guarded Sane (ItemsStep cfg)) t bs st) (hleft : LinksLeft st.store)
    (hreb : st.store.slabRebal = none) {env : AllocEnv} {comm : NRead}
    (g : StoreGuard cfg env st.store st.held it comm) (hm : MergeRoom cfg env st.store it comm) :
    StoreRefines cfg st.store
      (doStoreItem cfg env st.store it comm (cfg.hash (st.store.key it))).1 (st.store.key it)
      (storeSpec comm (lookup cfg st.store (st.store.key it)) (itemEntry (st.store.mem it))
        (st.store.casId + 1))
      (doStoreItem cfg env st.store it comm (cfg.hash (st.store.key it))).2 ∧
    ∀ p, (t.store.mem p).linked = true →
      itemGetCas (t.store.mem p) < st.store.casId + 1 := by
  obtain ⟨ht, _⟩ := (storeInv_init cfg k).run hc hr
  obtain ⟨hst, hle⟩ := ht.run hc hr'
  refine ⟨?_, fun p hp => ?_⟩
  · rw [← linkCas_eq hc]
    exact doStoreItem_spec hst.ok hst.wf.items hst.order hreb g hm
  · rw [UInt64.lt_iff_toNat_lt, toNat_succ_of_left hleft]
    have hcas := ht.wf.cas p hp
    omega

/-- A value set under a key that is not stored yet. -/
theorem store_command_refines_set :
    let a := doItemAlloc oneClass ⟨fun _ => true, some [4096]⟩ (storeInit 16) [107] 7 0 3 0
    let r := doStoreItem oneClass ⟨fun _ => true, none⟩ a.1 4096 .set 0
    StoreRefines oneClass a.1 r.1 (a.1.key 4096)
      (storeSpec .set (lookup oneClass a.1 (a.1.key 4096)) (itemEntry (a.1.mem 4096))
        (a.1.casId + 1)) r.2 ∧
      ∀ p, (a.1.mem p).linked = true → itemGetCas (a.1.mem p) < a.1.casId + 1 := by
  intro a r
  have h1 : ItemsStep oneClass (itemsInit 16) _ ⟨a.1, giveRef (fun _ => 0) a.2⟩ :=
    .alloc (storeInit 16) _ ⟨fun _ => true, some [4096]⟩ [107] 7 0 3 0
      (by decide) (by simp [FreshPage, storeInit]) rfl
  have hsane : Sane (itemsInit 16) (.alloc ⟨fun _ => true, some [4096]⟩ [107] 7 0 3 0) :=
    ⟨trivial, fun hop => hop.elim⟩
  have hnone : doItemGet oneClass a.1 (a.1.key 4096) (oneClass.hash (a.1.key 4096)) =
    (a.1, none) := rfl
  have g : StoreGuard oneClass ⟨fun _ => true, none⟩ a.1 (giveRef (fun _ => 0) a.2) 4096 .set :=
    ⟨by decide, rfl, .inl rfl, fun _ _ _ => .inl rfl, fun s' old he => by
      rw [hnone] at he
      cases he⟩
  exact store_command_refines rfl (.single ⟨hsane, h1⟩) (.nil _) (by decide) rfl g fun s' old he => by
    rw [hnone] at he
    cases he

/-- `-C`: no `cas` uniques. -/
def plainClass : Settings := { oneClass with useCas := false }

def fourChunks : AllocEnv := ⟨fun _ => true, some [4096, 5096, 6096, 7096]⟩

def noPage : AllocEnv := ⟨fun _ => true, none⟩

def itemForJ : Store := (doItemAlloc plainClass fourChunks (storeInit 16) [106] 0 0 3 0).1

def itemForK : Store := (doItemAlloc plainClass noPage itemForJ [107] 0 0 3 0).1

/-- Three items: one for `j` and two for `k`. -/
def threeItems : ItemsState :=
  ⟨(doItemAlloc plainClass noPage itemForK [107] 0 0 3 0).1,
    addRef (addRef (addRef (fun _ => 0) 7096) 6096) 5096⟩

/-- `j` is linked, and `k` three hours later; the caller still refers to all three. -/
def threeHours (rebal : Option (Ptr × Ptr)) : ItemsState :=
  let s := doItemLink plainClass threeItems.store 7096 0
  let s := { s with currentTime := 20000, oldestLive := 0, slabRebal := rebal }
  ⟨doItemLink plainClass s 6096 0, threeItems.held⟩

theorem threeItems_reachable : ∃ ops, Run (ItemsStep plainClass) (itemsInit 16) ops threeItems := by
  have h1 : ItemsStep plainClass (itemsInit 16) (.alloc fourChunks [106] 0 0 3 0) _ :=
    .alloc (storeInit 16) _ fourChunks [106] 0 0 3 0 (by decide)
      (by simp [FreshPage, storeInit, fourChunks]) rfl
  have h2 : ItemsStep plainClass _ (.alloc noPage [107] 0 0 3 0) _ :=
    .alloc itemForJ (addRef (fun _ => 0) 7096) noPage [107] 0 0 3 0 (by decide)
      (by simp [FreshPage, noPage]) rfl
  have h3 : ItemsStep plainClass _ (.alloc noPage [107] 0 0 3 0) _ :=
    .alloc itemForK (addRef (addRef (fun _ => 0) 7096) 6096) noPage [107] 0 0 3 0 (by decide)
      (by simp [FreshPage, noPage]) rfl
  exact ⟨_, Run.cons h1 (Run.cons h2 (Run.single h3))⟩

theorem threeHours_reachable (rebal : Option (Ptr × Ptr)) :
    ∃ ops, Run (ItemsStep plainClass) (itemsInit 16) ops (threeHours rebal) := by
  obtain ⟨ops, hr⟩ := threeItems_reachable
  have h1 : ItemsStep plainClass threeItems (.link 7096) _ :=
    .link threeItems.store threeItems.held 7096 (by decide) rfl rfl (.inl rfl)
  have h2 : ItemsStep plainClass _ (.clock 20000 0 rebal) _ :=
    .clock (doItemLink plainClass threeItems.store 7096 0) threeItems.held 20000 0 rebal
  have hnone : assocFind (doItemLink plainClass threeItems.store 7096 0).key
      (doItemLink plainClass threeItems.store 7096 0).assoc [107] 0 = none := by decide +kernel
  have h3 : ItemsStep plainClass _ (.link 6096) _ :=
    .link { doItemLink plainClass threeItems.store 7096 0 with
      currentTime := 20000, oldestLive := 0, slabRebal := rebal } threeItems.held 6096 (by decide)
      rfl hnone (.inl rfl)
  exact ⟨_, hr.append (Run.cons h1 (Run.cons h2 (Run.single h3)))⟩

/-- Without `cas` uniques a new value has the `cas` of the one before; an append repairs the
tail of the queue, which takes away another key; and a replace finds nothing where a slab
page is being moved. -/
theorem store_command_corners :
    (∃ ops, Run (ItemsStep plainClass) (itemsInit 16) ops (threeHours none)) ∧
    (∃ ops, Run (ItemsStep plainClass) (itemsInit 16) ops (threeHours (some (5000, 8096)))) ∧
    (doStoreItem plainClass noPage (threeHours none).store 5096 .set 0).2.1 = .STORED ∧
    (lookup plainClass (threeHours none).store [107]).map Entry.cas =
      (lookup plainClass (doStoreItem plainClass noPage (threeHours none).store 5096 .set 0).1
        [107]).map Entry.cas ∧
    lookup plainClass (threeHours none).store [106] ≠ none ∧
    lookup plainClass (doStoreItem plainClass noPage (threeHours none).store 5096 .append 0).1
      [106] = none ∧
    lookup plainClass (threeHours (some (5000, 8096))).store [107] ≠ none ∧
    (doStoreItem plainClass noPage (threeHours (some (5000, 8096))).store 5096 .replace 0).2.1 =
      .NOT_STORED :=
  ⟨threeHours_reachable none, threeHours_reachable _, by decide +kernel, by decide +kernel,
    by decide +kernel, by decide +kernel, by decide +kernel, by decide +kernel⟩

end RamCube
