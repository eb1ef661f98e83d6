import RamCube.Store.ItemsHistory

/-! # The commands as runs of item operations

`do_store_item`, `do_add_delta` and the command handlers call the operations of
items.c as `ItemsStep` demands, and give every reference they take back, but for
those they hand to their caller. -/
namespace RamCube

variable {cfg : Settings} {w : Bytes → UInt64 → Prop} {s : Store} {it p q : Ptr} {held : Ptr → Nat}

/-- The steps of the commands: no clock tick, no change of the flush mark, and no flushed
item moved up. `w` is a condition on the key of an item that is linked and the last `cas`
unique before it. -/
abbrev QuietStep (cfg : Settings) (w : Bytes → UInt64 → Prop) :
    ItemsState → ItemsOp → ItemsState → Prop :=
  Guarded (fun s op => Quiet s op ∧ ∀ q, LinksItem op q → w (s.store.key q) s.store.casId)
    (ItemsStep cfg)

/-- What an allocation needs: the page it may be granted is new, and it meets no item
that tail repair would take away from those who refer to it. -/
structure AllocGuard (cfg : Settings) (env : AllocEnv) (s : Store) (key : Bytes) (flags : Int)
    (nbytes : Nat) (curHv : UInt32) : Prop where
  page : FreshPage s env.newslab
  noRepair : tailRepairFires cfg env curHv s 5 (s.tails (allocClass cfg key flags nbytes)) = false

/-- What a storage command needs: a length below 2 is refused, and any other is one it can
allocate an item for. -/
structure UpdateGuard (cfg : Settings) (env : AllocEnv) (s : Store) (key : Bytes) (flags vlen : Int) : Prop where
  alloc : 2 ≤ vlen → AllocGuard cfg env s key flags vlen.toNat 0
  short : vlen < 2 → requestClass cfg key flags vlen = 0
  room : RoomAt cfg s key

theorem UpdateGuard.refused {env : AllocEnv} {t : Store} {key : Bytes} {flags vlen : Int} {exptime : UInt32}
    (h : UpdateGuard cfg env s key flags vlen) (hn : vlen < 2)
    (hs : ItemsCall cfg ⟨s, held⟩ (.alloc env key flags exptime vlen 0) ⟨t, held⟩) : t = s :=
  congrArg ItemsState.store (hs.of_no_class (h.short hn) hn)

theorem UpdateGuard.not_taken {env : AllocEnv} {t : Store} {key : Bytes} {flags vlen : Int} {exptime : UInt32}
    (h : UpdateGuard cfg env s key flags vlen) (hn : vlen < 2) :
    ¬ItemsCall cfg ⟨s, held⟩ (.alloc env key flags exptime vlen 0) ⟨t, addRef held it⟩ := by
  intro hs
  have hheld := congrFun (congrArg ItemsState.held (hs.of_no_class (h.short hn) hn)) it
  have hne : addRef held it it = held it + 1 := Function.update_self _ _ _
  dsimp only at hheld
  omega

theorem modify_congr {f g : Item → Item} (h : f (s.mem it) = g (s.mem it)) :
    s.modify it f = s.modify it g := by
  unfold Store.modify
  rw [h]

theorem refs_reorder {n o : Ptr} (hne : n ≠ o) :
    dropRef (dropRef (addRef held n) o) n = dropRef held o := by
  funext r
  simp only [dropRef, addRef, Function.update_apply]
  split_ifs <;> simp_all

theorem mergeData_bytes (comm : NRead) (o i n : Item) :
    ∃ bytes, mergeData comm o i n = { n with bytes := bytes } ∧
      ∀ k < itemDataOff n, bytes k = n.bytes k := by
  unfold mergeData writeData
  split
  · exact ⟨_, rfl, fun k hk => by
      dsimp only [itemDataOff] at hk ⊢
      rw [blit_of_out (by omega), blit_of_out (by omega)]⟩
  · exact ⟨_, rfl, fun k hk => by
      dsimp only [itemDataOff] at hk ⊢
      rw [blit_of_out (by omega), blit_of_out (by omega)]⟩

/-- Writing data is one of the writes `ItemsStep` allows. -/
theorem write_step {f : Item → Item} (hh : 0 < held it) (hl : (s.mem it).linked = false)
    (hf : ∃ bytes, f (s.mem it) = { s.mem it with bytes := bytes } ∧
      ∀ k < itemDataOff (s.mem it), bytes k = (s.mem it).bytes k) :
    ∃ op, QuietStep cfg w ⟨s, held⟩ op ⟨s.modify it f, held⟩ := by
  obtain ⟨bytes, he, hb⟩ := hf
  refine ⟨.write it bytes (s.mem it).cas, ⟨trivial, nofun⟩, ?_⟩
  have hm : s.modify it f = s.modify it fun i => itemSetCas { i with bytes := bytes }
      (s.mem it).cas := by
    refine modify_congr ?_
    rw [he]
    exact (itemSetCas_self { s.mem it with bytes := bytes }).symm
  rw [hm]
  exact .write s held it bytes _ hh hl hb

theorem writeCas_step (hh : 0 < held it) (hl : (s.mem it).linked = false) (cas : UInt64) :
    ∃ op, QuietStep cfg w ⟨s, held⟩ op ⟨s.modify it fun i => itemSetCas i cas, held⟩ :=
  ⟨.write it (s.mem it).bytes cas, ⟨trivial, nofun⟩, .write s held it (s.mem it).bytes cas hh hl
    fun _ _ => rfl⟩

theorem writeData_bytes (off : Nat) (data : Bytes) (n : Item) :
    ∃ bytes, writeData off data n = { n with bytes := bytes } ∧
      ∀ k < itemDataOff n, bytes k = n.bytes k :=
  ⟨_, rfl, fun k hk => blit_of_out (by omega)⟩

theorem itemKey_write {i : Item} {bytes : Nat → UInt8}
    (hb : ∀ k < itemDataOff i, bytes k = i.bytes k) :
    itemKey { i with bytes := bytes } = itemKey i :=
  slice_congr fun k _ hk => hb k (by
    have hk' : k < 0 + i.nkey := hk
    unfold itemDataOff
    omega)

theorem alloc_step {env : AllocEnv} {key : Bytes} {flags : Int} {nbytes : Nat} {curHv : UInt32}
    (exptime : UInt32) (hn : 2 ≤ nbytes) (ha : AllocGuard cfg env s key flags nbytes curHv) :
    ∃ op, QuietStep cfg w ⟨s, held⟩ op ⟨(doItemAlloc cfg env s key flags exptime nbytes curHv).1,
      giveRef held (doItemAlloc cfg env s key flags exptime nbytes curHv).2⟩ :=
  ⟨.alloc env key flags exptime nbytes curHv, ⟨trivial, nofun⟩,
    .alloc s held env key flags exptime nbytes curHv hn ha.page ha.noRepair⟩

theorem link_step (hh : 0 < held it) (hl : (s.mem it).linked = false)
    (hk : assocFind s.key s.assoc (s.key it) (cfg.hash (s.key it)) = none) (hr : Room cfg s it)
    (hc : w (s.key it) s.casId) :
    ∃ op, QuietStep cfg w ⟨s, held⟩ op ⟨doItemLink cfg s it (cfg.hash (s.key it)), held⟩ :=
  ⟨.link it, ⟨trivial, fun _ hq => hq ▸ hc⟩, .link s held it hh hl hk hr⟩

theorem replace_step {old : Ptr} (ho : (s.mem old).linked = true) (hh : 0 < held it)
    (hl : (s.mem it).linked = false) (hk : s.key old = s.key it) (hr : Room cfg s it)
    (hc : w (s.key it) s.casId) :
    ∃ op, QuietStep cfg w ⟨s, held⟩ op ⟨doItemReplace cfg s old it (cfg.hash (s.key it)), held⟩ :=
  ⟨.replace old it, ⟨trivial, fun _ hq => hq ▸ hc⟩, hk ▸ ItemsStep.replace s held old it ho hh hl hk hr⟩

theorem unlink_step (s : Store) (held : Ptr → Nat) (it : Ptr) :
    ∃ op, QuietStep cfg w ⟨s, held⟩ op ⟨doItemUnlink cfg s it (cfg.hash (s.key it)), held⟩ :=
  ⟨.unlink it, ⟨trivial, nofun⟩, .unlink s held it⟩

theorem update_step (hf : flushed s (s.mem it) = false) :
    ∃ op, QuietStep cfg w ⟨s, held⟩ op ⟨doItemUpdate s it, held⟩ :=
  ⟨.update it, ⟨hf, nofun⟩, .update s held it⟩

theorem remove_step (hh : 0 < held it) :
    ∃ op, QuietStep cfg w ⟨s, held⟩ op ⟨doItemRemove cfg s it, dropRef held it⟩ :=
  ⟨.remove it, ⟨trivial, nofun⟩, .remove s held it hh⟩

theorem step_keeps {s₁ s₂ : ItemsState} (h : StoreOk cfg s₁.store s₁.held)
    (hs : ∃ op, QuietStep cfg w s₁ op s₂) : StoreOk cfg s₂.store s₂.held := by
  obtain ⟨op, _, hs⟩ := hs
  exact hs.keeps h

/-- Two runs one after the other. -/
theorem run_trans {s₁ s₂ s₃ : ItemsState} (h : ∃ ops, Run (QuietStep cfg w) s₁ ops s₂)
    (h' : ∃ ops, Run (QuietStep cfg w) s₂ ops s₃) : ∃ ops, Run (QuietStep cfg w) s₁ ops s₃ := by
  obtain ⟨ops, h⟩ := h
  obtain ⟨ops', h'⟩ := h'
  exact ⟨_, h.append h'⟩

theorem run_step {s₁ s₂ : ItemsState} (h : ∃ op, QuietStep cfg w s₁ op s₂) :
    ∃ ops, Run (QuietStep cfg w) s₁ ops s₂ := by
  obtain ⟨op, h⟩ := h
  exact ⟨[op], .single h⟩

/-! ## Lookup -/

/-- `do_item_get` found nothing live: what was stored under the key is gone. -/
structure Missed (cfg : Settings) (s : Store) (held : Ptr → Nat) (key : Bytes) (s' : Store) :
    Prop where
  step : ∀ w : Bytes → UInt64 → Prop, ∃ op, QuietStep cfg w ⟨s, held⟩ op ⟨s', held⟩
  env : s'.env = s.env
  absent : ∀ p, (s'.mem p).linked = true → s'.key p ≠ key
  dead : ∀ p, (s.mem p).linked = true → s.key p = key →
    inRebalance s p = true ∨ flushedOrExpired s (s.mem p) = true
  body : ∀ p, (s'.mem p).body = (s.mem p).body
  linked : ∀ p, (s'.mem p).linked = ((s.mem p).linked && decide (s.key p ≠ key))
  count : ∀ p, (s.mem p).linked = false → (s'.mem p).refcount = (s.mem p).refcount

/-- `do_item_get` found a live item and referred to it. -/
structure Got (cfg : Settings) (s : Store) (held : Ptr → Nat) (key : Bytes) (s' : Store)
    (old : Ptr) : Prop where
  step : ∀ w : Bytes → UInt64 → Prop, ∃ op, QuietStep cfg w ⟨s, held⟩ op ⟨s', addRef held old⟩
  env : s'.env = s.env
  stored : (s'.mem old).linked = true
  key : s'.key old = key
  live : flushedOrExpired s (s.mem old) = false
  body : ∀ p, (s'.mem p).body = (s.mem p).body
  linked : ∀ p, (s'.mem p).linked = (s.mem p).linked
  count : ∀ p, p ≠ old → (s'.mem p).refcount = (s.mem p).refcount

theorem get_step {key : Bytes} (hr : RoomAt cfg s key) :
    ∃ op, QuietStep cfg w ⟨s, held⟩ op ⟨(doItemGet cfg s key (cfg.hash key)).1,
      giveRef held (doItemGet cfg s key (cfg.hash key)).2⟩ :=
  ⟨.get key, ⟨trivial, nofun⟩, .get s held key hr⟩

theorem doItemGet_outcome (h : StoreOk cfg s held) {key : Bytes} (hr : RoomAt cfg s key) :
    (∃ s', doItemGet cfg s key (cfg.hash key) = (s', none) ∧ Missed cfg s held key s') ∨
      ∃ s' old, doItemGet cfg s key (cfg.hash key) = (s', some old) ∧ Got cfg s held key s' old := by
  have hstep : ∀ w : Bytes → UInt64 → Prop, ∃ op, QuietStep cfg w ⟨s, held⟩ op _ := fun _ => get_step hr
  rcases doItemGet_cases h key with ⟨he, hn⟩ | ⟨old, s', he, hl, hk, hd, hv, _, hm⟩ |
    ⟨old, s', he, hl, hk, _, hd, hv, _, _, hm⟩
  · rw [he] at hstep
    refine .inl ⟨s, he, hstep, rfl, hn, fun p hp hpk => absurd hpk (hn p hp), fun _ => rfl,
      fun p => ?_, fun _ _ => rfl⟩
    by_cases hp : (s.mem p).linked = true
    · simp [hp, hn p hp]
    · simp [Bool.not_eq_true _ ▸ hp]
  · rw [he] at hstep
    have honly : ∀ p, (s.mem p).linked = true → (p = old ↔ s.key p = key) := fun p hp =>
      ⟨fun hpo => hpo ▸ hk, fun hpk => h.key_inj hp hl (hpk.trans hk.symm)⟩
    have hlink : ∀ p, (s'.mem p).linked = ((s.mem p).linked && decide (s.key p ≠ key)) := by
      intro p
      rw [(hm p).2.1]
      by_cases hp : (s.mem p).linked = true
      · simp only [hp, Bool.true_and, ne_eq, honly p hp]
      · simp [Bool.not_eq_true _ ▸ hp]
    refine .inl ⟨s', he, hstep, hv, fun p hp hpk => ?_, fun p hp hpk => ?_, fun p => (hm p).1, hlink,
      fun p hp => (hm p).2.2 ?_⟩
    · rw [hlink, Bool.and_eq_true, decide_eq_true_eq] at hp
      exact hp.2 ((key_of_body (hm p).1).symm.trans hpk)
    · rw [(honly p hp).mpr hpk]
      exact hd
    · intro hpo
      rw [hpo, hl] at hp
      cases hp
  · rw [he] at hstep
    exact .inr ⟨s', old, he, hstep, hv, (hm old).2.1.trans hl, (key_of_body (hm old).1).trans hk, hd,
      fun p => (hm p).1, fun p => (hm p).2.1, fun p => (hm p).2.2⟩

theorem Got.ok {key : Bytes} {s' : Store} {old : Ptr} (hg : Got cfg s held key s' old)
    (h : StoreOk cfg s held) : StoreOk cfg s' (addRef held old) :=
  step_keeps h (hg.step fun _ _ => False)

theorem Missed.ok {key : Bytes} {s' : Store} (hg : Missed cfg s held key s')
    (h : StoreOk cfg s held) : StoreOk cfg s' held :=
  step_keeps h (hg.step fun _ _ => False)

theorem flushedOrExpired_congr {s s' : Store} {i j : Item} (he : s'.env = s.env)
    (hb : j.body = i.body) : flushedOrExpired s' j = flushedOrExpired s i := by
  have h1 : s'.currentTime = s.currentTime := congrArg (·.1) he
  have h2 : s'.oldestLive = s.oldestLive := congrArg (·.2.1) he
  unfold flushedOrExpired
  rw [h1, h2, time_of_body hb, exptime_of_body hb]

theorem Got.unflushed {key : Bytes} {s' : Store} {old : Ptr} (hg : Got cfg s held key s' old) :
    flushed s' (s'.mem old) = false := by
  have hl := hg.live
  rw [← flushedOrExpired_congr hg.env (hg.body old), flushedOrExpired_eq, Bool.or_eq_false_iff] at hl
  exact hl.1

theorem Got.ne {key : Bytes} {s' : Store} {old : Ptr} (hg : Got cfg s held key s' old)
    (hl : (s.mem it).linked = false) : it ≠ old := by
  intro he
  have hs := hg.stored
  rw [hg.linked, ← he, hl] at hs
  cases hs

theorem addRef_self (held : Ptr → Nat) (p : Ptr) : 0 < addRef held p p := by
  rw [addRef, Function.update_self]
  exact Nat.succ_pos _

theorem addRef_other (hh : 0 < held it) (hne : it ≠ p) : 0 < addRef held p it := by
  rw [addRef, Function.update_of_ne hne]
  exact hh

theorem casId_congr {s s' : Store} {key : Bytes} (he : s'.env = s.env) (hc : w key s.casId) :
    w key s'.casId := by
  have hid : s'.casId = s.casId := congrArg (·.2.2.2) he
  rwa [hid]

theorem room_congr {s s' : Store} (hc : (s'.mem p).refcount = (s.mem p).refcount)
    (hr : Room cfg s p) : Room cfg s' p := by
  unfold Room at hr ⊢
  rwa [hc]

/-! ## Storing -/

/-- A chunk just handed out, its data written: the rest is as it was. -/
structure FreshCopy (cfg : Settings) (s s' : Store) (held : Ptr → Nat) (n : Ptr) (key : Bytes) :
    Prop where
  unheld : held n = 0
  back : ∀ p, (s'.mem p).linked = true → (s.mem p).linked = true ∧ p ≠ n
  linked : (s'.mem n).linked = false
  key : s'.key n = key
  room : Room cfg s' n
  others : ∀ p, p ≠ n → ((s.mem p).linked = true ∨ 0 < held p) →
    (s'.mem p).body = (s.mem p).body ∧ (s'.mem p).linked = (s.mem p).linked
  env : s'.env = s.env

theorem freshCopy (h : StoreOk cfg s held) {env : AllocEnv} {key : Bytes} {flags : Int}
    {exptime : UInt32} {nbytes : Nat} {curHv : UInt32}
    (ha : AllocGuard cfg env s key flags nbytes curHv) {s2 : Store} {n : Ptr}
    (he : doItemAlloc cfg env s key flags exptime nbytes curHv = (s2, some n)) {f : Item → Item}
    (hf : ∃ bytes, f (s2.mem n) = { s2.mem n with bytes := bytes } ∧
      ∀ k < itemDataOff (s2.mem n), bytes k = (s2.mem n).bytes k) :
    (s2.mem n).linked = false ∧ FreshCopy cfg s (s2.modify n f) held n key := by
  rcases doItemAlloc_spec h ha.page key flags exptime nbytes curHv ha.noRepair with
    he' | ⟨s1, it, id, i, he', _, hk, hm⟩
  · rw [he] at he'
    cases he'
  · rw [he] at he'
    cases he'
    obtain ⟨bytes, hfb, hb⟩ := hf
    have hl : (s2.mem n).linked = false := by
      rw [hk.linked]
      simp
    refine ⟨hl, ?_, fun p hp => ?_, ?_, ?_, ?_, fun p hp hlive => ?_, hk.env⟩
    · have hc := h.refcount_eq n
      rw [hk.count] at hc
      omega
    · rw [modify_field (·.linked) (by rw [hfb]), hk.linked, Bool.and_eq_true,
        decide_eq_true_eq] at hp
      exact hp
    · rw [modify_mem_self, hfb]
      exact hl
    · unfold Store.key
      rw [modify_mem_self, hfb, itemKey_write hb, hm]
      exact itemInit_key cfg id key flags exptime nbytes i
    · refine refMod_room cfg ?_
      rw [modify_mem_self, hfb, hm]
      change 1 + 1 < 2 ^ 16
      decide
    · rw [modify_mem_of_ne hp]
      refine ⟨hk.body p hp (h.carved_of hlive), ?_⟩
      rw [hk.linked]
      simp [hp]

theorem FreshCopy.ne {s' : Store} {n : Ptr} {key : Bytes} (hf : FreshCopy cfg s s' held n key)
    (hp : 0 < held p) : p ≠ n := by
  intro he
  rw [he, hf.unheld] at hp
  omega

/-- The end of the two commands that store a copy: the copy takes the old item's place
and both references are given back. -/
theorem replaceCopy_run {s0 : Store} {n : Ptr} {key : Bytes} (hf : FreshCopy cfg s0 s held n key)
    (hlp : (s0.mem p).linked = true) (hkp : s0.key p = key) (hhp : 0 < held p)
    (hc : w key s0.casId) :
    ∃ ops, Run (QuietStep cfg w) ⟨s, addRef held n⟩ ops
      ⟨doItemReplace cfg s p n (cfg.hash key), addRef held n⟩ := by
  obtain ⟨hb, hl⟩ := hf.others p (hf.ne hhp) (.inl hlp)
  have hk : s.key p = s.key n := by
    rw [hf.key, ← hkp]
    exact key_of_body hb
  have hstep := replace_step (hl.trans hlp) (addRef_self held n) hf.linked hk hf.room
    (casId_congr hf.env (hf.key ▸ hc))
  rw [hf.key] at hstep
  exact run_step hstep

/-- What append and prepend do once their copy has a chunk. -/
theorem storeCopy_run (h : StoreOk cfg s held) {env : AllocEnv} {o n : Ptr} {s2 : Store} (comm : NRead)
    (hlo : (s.mem o).linked = true) (hho : 0 < held o) (hk : s.key o = s.key it)
    (ha : AllocGuard cfg env s (s.key it) (itemFlags (s.mem o))
      ((s.mem it).nbytes + (s.mem o).nbytes - 2) (cfg.hash (s.key it)))
    (he : doItemAlloc cfg env s (s.key it) (itemFlags (s.mem o)) (s.mem o).exptime
      ((s.mem it).nbytes + (s.mem o).nbytes - 2) (cfg.hash (s.key it)) = (s2, some n)) (hc : w (s.key it) s.casId) :
    ∃ ops, Run (QuietStep cfg w) ⟨s2, addRef held n⟩ ops
      ⟨doItemRemove cfg (doItemRemove cfg (doItemReplace cfg
        (s2.modify n fun i => mergeData comm (s2.mem o) (s2.mem it) i) o n (cfg.hash (s.key it))) o) n, dropRef held o⟩ := by
  have hmb := mergeData_bytes comm (s2.mem o) (s2.mem it) (s2.mem n)
  obtain ⟨hl2, hfc⟩ := freshCopy h ha he hmb
  have hwrite : ∃ op, QuietStep cfg w ⟨s2, addRef held n⟩ op _ :=
    write_step (f := fun i => mergeData comm (s2.mem o) (s2.mem it) i) (addRef_self held n) hl2 hmb
  have hrep := replaceCopy_run hfc hlo hk hho hc
  have hne : o ≠ n := hfc.ne hho
  have hdn : 0 < dropRef (addRef held n) o n := by
    rw [dropRef, Function.update_of_ne (Ne.symm hne)]
    exact addRef_self held n
  have hrun := run_trans (run_step hwrite) (run_trans hrep
    (run_trans (run_step (remove_step (addRef_other hho hne))) (run_step (remove_step hdn))))
  rw [refs_reorder (Ne.symm hne)] at hrun
  exact hrun

theorem storeMerged_run (h : StoreOk cfg s held) {env : AllocEnv} {o : Ptr} (comm : NRead)
    (hlo : (s.mem o).linked = true) (hho : 0 < held o) (hk : s.key o = s.key it)
    (hn : 2 ≤ (s.mem it).nbytes + (s.mem o).nbytes - 2)
    (ha : AllocGuard cfg env s (s.key it) (itemFlags (s.mem o))
      ((s.mem it).nbytes + (s.mem o).nbytes - 2) (cfg.hash (s.key it)))
    (hc : (storeMerged cfg env s o it comm (cfg.hash (s.key it))).2.1 = .STORED →
      w (s.key it) s.casId) :
    ∃ ops, Run (QuietStep cfg w) ⟨s, held⟩ ops
      ⟨(storeMerged cfg env s o it comm (cfg.hash (s.key it))).1, dropRef held o⟩ := by
  have hstep : ∃ op, QuietStep cfg w ⟨s, held⟩ op _ := alloc_step (s.mem o).exptime hn ha
  unfold storeMerged at hc ⊢
  rcases he : doItemAlloc cfg env s (s.key it) (itemFlags (s.mem o)) (s.mem o).exptime
    ((s.mem it).nbytes + (s.mem o).nbytes - 2) (cfg.hash (s.key it)) with ⟨s2, r⟩
  rw [he] at hstep
  have he' : doItemAlloc cfg env s (itemKey (s.mem it)) (itemFlags (s.mem o)) (s.mem o).exptime
    ((s.mem it).nbytes + (s.mem o).nbytes - 2) (cfg.hash (s.key it)) = (s2, r) := he
  simp only [he'] at hc ⊢
  cases r with
  | none => exact run_trans (run_step hstep) (run_step (remove_step hho))
  | some n => exact run_trans (run_step hstep) (storeCopy_run h comm hlo hho hk ha he (hc rfl))

/-- An append or prepend whose `cas`, if it names one, is that of the old item. -/
def MergeWanted (comm : NRead) (it old : Item) : Prop :=
  (comm = .append ∨ comm = .prepend) ∧ ¬(itemGetCas it ≠ 0 ∧ itemGetCas it ≠ itemGetCas old)

/-- What `do_store_item` needs: the caller's item is not stored yet, the counts have
room, and the copy that append and prepend make can be looked for. -/
structure StoreGuard (cfg : Settings) (env : AllocEnv) (s : Store) (held : Ptr → Nat) (it : Ptr)
    (comm : NRead) : Prop where
  held : 0 < held it
  unlinked : (s.mem it).linked = false
  room : Room cfg s it
  roomAt : RoomAt cfg s (s.key it)
  alloc : ∀ s' old, doItemGet cfg s (s.key it) (cfg.hash (s.key it)) = (s', some old) →
    MergeWanted comm (s'.mem it) (s'.mem old) →
    AllocGuard cfg env s' (s.key it) (itemFlags (s'.mem old))
      ((s'.mem it).nbytes + (s'.mem old).nbytes - 2) (cfg.hash (s.key it))

/-- An absent item is linked, a live one makes way, in the store after the lookup. -/
theorem storeOver_missed {s' : Store} (hg : Missed cfg s held (s.key it) s')
    (h : StoreOk cfg s held) {env : AllocEnv} {comm : NRead}
    (g : StoreGuard cfg env s held it comm) (hc : w (s.key it) s.casId) :
    ∃ ops, Run (QuietStep cfg w) ⟨s', held⟩ ops
      ⟨storeOver cfg s' none it (cfg.hash (s.key it)), held⟩ := by
  have hk : s'.key it = s.key it := key_of_body (hg.body it)
  have hn : assocFind s'.key s'.assoc (s'.key it) (cfg.hash (s'.key it)) = none := by
    rw [(hg.ok h).find_none, hk]
    exact hg.absent
  have hl : (s'.mem it).linked = false := by
    rw [hg.linked, g.unlinked]
    rfl
  have hstep := link_step g.held hl hn (room_congr (hg.count it g.unlinked) g.room)
    (casId_congr hg.env (hk ▸ hc))
  rw [hk] at hstep
  exact run_step hstep

theorem storeOver_got {s' : Store} {old : Ptr} (hg : Got cfg s held (s.key it) s' old)
    {env : AllocEnv} {comm : NRead} (g : StoreGuard cfg env s held it comm)
    (hc : w (s.key it) s.casId) : ∃ ops, Run (QuietStep cfg w) ⟨s', addRef held old⟩ ops
      ⟨doItemRemove cfg (doItemReplace cfg s' old it (cfg.hash (s.key it))) old, held⟩ := by
  have hk : s'.key it = s.key it := key_of_body (hg.body it)
  have hne : it ≠ old := hg.ne g.unlinked
  have hstep := replace_step hg.stored (addRef_other g.held hne) ((hg.linked it).trans g.unlinked)
    (hg.key.trans hk.symm) (room_congr (hg.count it hne) g.room) (casId_congr hg.env (hk ▸ hc))
  rw [hk] at hstep
  have hrun := run_trans (run_step hstep) (run_step (remove_step (addRef_self held old)))
  rw [dropRef_addRef] at hrun
  exact hrun

theorem giveBack_run (s : Store) (held : Ptr → Nat) (old : Ptr) :
    ∃ ops, Run (QuietStep cfg w) ⟨s, addRef held old⟩ ops ⟨doItemRemove cfg s old, held⟩ := by
  have hstep : ∃ op, QuietStep cfg w ⟨s, addRef held old⟩ op _ := remove_step (addRef_self held old)
  rw [dropRef_addRef] at hstep
  exact run_step hstep

theorem storeMerged_got {s' : Store} {old : Ptr} (hg : Got cfg s held (s.key it) s' old)
    (h : StoreOk cfg s held) (hw : ItemsWf cfg s held) {env : AllocEnv} {comm : NRead}
    (g : StoreGuard cfg env s held it comm)
    (he : doItemGet cfg s (s.key it) (cfg.hash (s.key it)) = (s', some old))
    (hm : MergeWanted comm (s'.mem it) (s'.mem old))
    (hc : (storeMerged cfg env s' old it comm (cfg.hash (s.key it))).2.1 = .STORED →
      w (s.key it) s.casId) :
    ∃ ops, Run (QuietStep cfg w) ⟨s', addRef held old⟩ ops
      ⟨(storeMerged cfg env s' old it comm (cfg.hash (s.key it))).1, held⟩ := by
  have hk : s'.key it = s.key it := key_of_body (hg.body it)
  have hn : 2 ≤ (s'.mem it).nbytes + (s'.mem old).nbytes - 2 := by
    have h1 := ((hw it (.inr g.held)).congr (stored_of_body (hg.body it))).nbytes
    have h2 := ((hw old (.inl ((hg.linked old).symm.trans hg.stored))).congr
      (stored_of_body (hg.body old))).nbytes
    omega
  have hrun := storeMerged_run (hg.ok h) comm hg.stored (addRef_self held old)
    (hg.key.trans hk.symm) hn (by rw [hk]; exact g.alloc s' old he hm) (by
      rw [hk]
      exact fun hr => casId_congr hg.env (hc hr))
  rwa [hk, dropRef_addRef] at hrun

/-- `do_store_item` is a run of item operations and keeps none of the references it takes. -/
theorem doStoreItem_run (h : StoreOk cfg s held) (hw : ItemsWf cfg s held) {env : AllocEnv}
    {comm : NRead} (g : StoreGuard cfg env s held it comm)
    (hc : (doStoreItem cfg env s it comm (cfg.hash (s.key it))).2.1 = .STORED →
      w (s.key it) s.casId) :
    ∃ ops, Run (QuietStep cfg w) ⟨s, held⟩ ops
      ⟨(doStoreItem cfg env s it comm (cfg.hash (s.key it))).1, held⟩ := by
  unfold doStoreItem at hc ⊢
  rcases doItemGet_outcome h g.roomAt with ⟨s', he, hg⟩ | ⟨s', old, he, hg⟩
  · rw [he] at hc ⊢
    have hlink := fun hk => run_trans (run_step (hg.step w)) (storeOver_missed hg h g hk)
    cases comm with
    | add => exact hlink (hc rfl)
    | set => exact hlink (hc rfl)
    | replace => exact run_step (hg.step w)
    | append => exact run_step (hg.step w)
    | prepend => exact run_step (hg.step w)
    | cas => exact run_step (hg.step w)
  · rw [he] at hc ⊢
    have hgive : ∃ ops, Run (QuietStep cfg w) ⟨s, held⟩ ops ⟨doItemRemove cfg s' old, held⟩ :=
      run_trans (run_step (hg.step w)) (giveBack_run s' held old)
    have hover := fun hk => run_trans (run_step (hg.step w)) (storeOver_got hg g hk)
    cases comm with
    | add => exact run_trans (run_step (hg.step w)) (run_trans (run_step (update_step hg.unflushed))
        (giveBack_run _ held old))
    | set => exact hover (hc rfl)
    | replace => exact hover (hc rfl)
    | append =>
      dsimp only at hc ⊢
      by_cases hm : itemGetCas (s'.mem it) ≠ 0 ∧ itemGetCas (s'.mem it) ≠ itemGetCas (s'.mem old)
      · rw [if_pos hm]
        exact hgive
      · rw [if_neg hm] at hc ⊢
        exact run_trans (run_step (hg.step w)) (storeMerged_got hg h hw g he ⟨.inl rfl, hm⟩ hc)
    | prepend =>
      dsimp only at hc ⊢
      by_cases hm : itemGetCas (s'.mem it) ≠ 0 ∧ itemGetCas (s'.mem it) ≠ itemGetCas (s'.mem old)
      · rw [if_pos hm]
        exact hgive
      · rw [if_neg hm] at hc ⊢
        exact run_trans (run_step (hg.step w)) (storeMerged_got hg h hw g he ⟨.inr rfl, hm⟩ hc)
    | cas =>
      dsimp only at hc ⊢
      by_cases hm : itemGetCas (s'.mem it) = itemGetCas (s'.mem old)
      · rw [if_pos hm] at hc ⊢
        exact hover (hc rfl)
      · rw [if_neg hm]
        exact hgive

/-! ## Counting -/

/-- What `do_add_delta` needs. -/
structure DeltaGuard (cfg : Settings) (env : AllocEnv) (s : Store) (key : Bytes) (incr : Bool)
    (delta : UInt64) : Prop where
  roomAt : RoomAt cfg s key
  alloc : ∀ s' old value, doItemGet cfg s key (cfg.hash key) = (s', some old) →
    safeStrtoull (dataString cfg (s'.mem old)) = some value →
    AllocGuard cfg env s' key (strtol ((itemSuffix (s'.mem old)).drop 1))
      ((decimal (deltaValue incr delta value).toNat).length + 2) (cfg.hash key)

/-- What it needs where the data of an item reads as `text` does. -/
structure ReadingGuard (text : Item → Bytes) (cfg : Settings) (env : AllocEnv) (s : Store) (key : Bytes) (incr : Bool)
    (delta : UInt64) : Prop where
  roomAt : RoomAt cfg s key
  alloc : ∀ s' old value, doItemGet cfg s key (cfg.hash key) = (s', some old) →
    safeStrtoull (text (s'.mem old)) = some value →
    AllocGuard cfg env s' key (strtol ((itemSuffix (s'.mem old)).drop 1))
      ((decimal (deltaValue incr delta value).toNat).length + 2) (cfg.hash key)

/-- An item just looked up has a reference besides the table's, so its number is never
changed in place. -/
theorem Got.shared {key : Bytes} {s' : Store} {old : Ptr} (hg : Got cfg s held key s' old)
    (h : StoreOk cfg s held) : (s'.mem old).refcount ≠ 1 := by
  have hc := (hg.ok h).refcount_eq old
  have hp := addRef_self held old
  rw [hg.stored] at hc
  simp only [if_true] at hc
  omega

theorem doAddDeltaReading_run (h : StoreOk cfg s held) {text : Item → Bytes} {env : AllocEnv} {key : Bytes}
    {incr : Bool} {delta : UInt64} (cas : UInt64) (g : ReadingGuard text cfg env s key incr delta)
    (hc : (doAddDeltaReading text cfg env s key incr delta cas (cfg.hash key)).2.result = .OK →
      w key s.casId) :
    ∃ ops, Run (QuietStep cfg w) ⟨s, held⟩ ops
      ⟨(doAddDeltaReading text cfg env s key incr delta cas (cfg.hash key)).1, held⟩ := by
  unfold doAddDeltaReading at hc ⊢
  rcases doItemGet_outcome h g.roomAt with ⟨s', he, hg⟩ | ⟨s', old, he, hg⟩
  · rw [he]
    exact run_step (hg.step w)
  · rw [he] at hc ⊢
    have hgive : ∃ ops, Run (QuietStep cfg w) ⟨s, held⟩ ops ⟨doItemRemove cfg s' old, held⟩ :=
      run_trans (run_step (hg.step w)) (giveBack_run s' held old)
    dsimp only at hc ⊢
    by_cases hm : cas ≠ 0 ∧ itemGetCas (s'.mem old) ≠ cas
    · rw [if_pos hm]
      exact hgive
    · rw [if_neg hm] at hc ⊢
      cases hv : safeStrtoull (text (s'.mem old)) with
      | none => exact hgive
      | some value =>
        rw [hv] at hc
        dsimp only at hc ⊢
        rw [if_pos (.inr (hg.shared h))] at hc ⊢
        have ha := g.alloc s' old value he hv
        generalize decimal (deltaValue incr delta value).toNat = buf at ha hc ⊢
        have hstep : ∃ op, QuietStep cfg w ⟨s', addRef held old⟩ op _ :=
          alloc_step (s'.mem old).exptime (Nat.le_add_left 2 _) ha
        have hkey : itemKey (s'.mem old) = key := hg.key
        rw [hkey] at hc ⊢
        rcases hal : doItemAlloc cfg env s' key (strtol ((itemSuffix (s'.mem old)).drop 1))
          (s'.mem old).exptime (buf.length + 2) (cfg.hash key) with ⟨s2, r⟩
        rw [hal] at hstep hc
        cases r with
        | none => exact run_trans (run_step (hg.step w)) (run_trans (run_step hstep)
            (giveBack_run s2 held old))
        | some n =>
          have hwb := writeData_bytes 0 (buf ++ [13, 10]) (s2.mem n)
          obtain ⟨hl2, hfc⟩ := freshCopy (hg.ok h) ha hal hwb
          have hwrite : ∃ op, QuietStep cfg w ⟨s2, addRef (addRef held old) n⟩ op _ :=
            write_step (addRef_self _ n) hl2 hwb
          have hho := addRef_self held old
          have hne : old ≠ n := hfc.ne hho
          have hrep := replaceCopy_run hfc hg.stored hg.key hho (casId_congr hg.env (hc rfl))
          dsimp only
          have hgone := ((replace_mem cfg (s2.modify n (writeData 0 (buf ++ [13, 10]))) old n
            (cfg.hash key) (Ne.symm hne)).1 old hne).2.1
          simp only [ne_eq, not_true_eq_false, decide_false, Bool.and_false] at hgone
          generalize doItemReplace cfg (s2.modify n (writeData 0 (buf ++ [13, 10]))) old n
            (cfg.hash key) = s3 at hrep hgone ⊢
          have hcas : ∃ op, QuietStep cfg w ⟨s3, addRef (addRef held old) n⟩ op _ :=
            writeCas_step (addRef_other hho hne) hgone
              (if cfg.useCas then itemGetCas (s3.mem n) else 0)
          exact run_trans (run_step (hg.step w)) (run_trans (run_step hstep) (run_trans
            (run_step hwrite) (run_trans hrep (run_trans (run_step hcas)
            (run_trans (giveBack_run _ (addRef held old) n) (giveBack_run _ held old))))))

theorem doAddDelta_run (h : StoreOk cfg s held) {env : AllocEnv} {key : Bytes} {incr : Bool}
    {delta : UInt64} (cas : UInt64) (g : DeltaGuard cfg env s key incr delta)
    (hc : (doAddDelta cfg env s key incr delta cas (cfg.hash key)).2.result = .OK →
      w key s.casId) :
    ∃ ops, Run (QuietStep cfg w) ⟨s, held⟩ ops
      ⟨(doAddDelta cfg env s key incr delta cas (cfg.hash key)).1, held⟩ :=
  doAddDeltaReading_run h cas ⟨g.roomAt, g.alloc⟩ hc

/-! ## The command handlers -/

theorem deleteItem_run (h : StoreOk cfg s held) {key : Bytes} (cas : UInt64)
    (hr : RoomAt cfg s key) :
    ∃ ops, Run (QuietStep cfg w) ⟨s, held⟩ ops ⟨(deleteItem cfg s key cas).1, held⟩ := by
  unfold deleteItem
  rcases doItemGet_outcome h hr with ⟨s', he, hg⟩ | ⟨s', old, he, hg⟩
  · rw [he]
    exact run_step (hg.step w)
  · rw [he]
    dsimp only
    split
    · exact run_trans (run_step (hg.step w)) (run_trans (run_step (unlink_step s' _ old))
        (giveBack_run _ held old))
    · exact run_trans (run_step (hg.step w)) (giveBack_run s' held old)

theorem failedUpdate_run (h : StoreOk cfg s held) {key : Bytes} (comm : NRead) (hr : RoomAt cfg s key) :
    ∃ ops, Run (QuietStep cfg w) ⟨s, held⟩ ops ⟨failedUpdate cfg s comm key, held⟩ := by
  unfold failedUpdate
  split
  · exact deleteItem_run h 0 hr
  · exact ⟨[], .nil _⟩

/-- `process_update` leaves its item, if it got one, to the caller. -/
theorem processUpdate_run (h : StoreOk cfg s held) {env : AllocEnv} {comm : NRead} {key : Bytes}
    {flags : Int} {exptime : UInt32} {vlen : Nat} (reqCas : UInt64) (hn : 2 ≤ vlen)
    (ha : AllocGuard cfg env s key flags vlen 0) (hr : RoomAt cfg s key) :
    ∃ ops, Run (QuietStep cfg w) ⟨s, held⟩ ops
      ⟨(processUpdate cfg env s comm key flags exptime vlen reqCas).1,
        giveRef held (processUpdate cfg env s comm key flags exptime vlen reqCas).2⟩ := by
  have hstep : ∃ op, QuietStep cfg w ⟨s, held⟩ op _ := alloc_step exptime hn ha
  unfold processUpdate
  rcases doItemAlloc_spec h ha.page key flags exptime vlen 0 ha.noRepair with
    he | ⟨s', it, id, i, he, _, _, hm⟩
  · rw [he] at hstep ⊢
    dsimp only
    split
    · exact run_trans (run_step hstep) (deleteItem_run h 0 hr)
    · exact run_step hstep
  · rw [he] at hstep ⊢
    have hl : (s'.mem it).linked = false := by
      rw [hm]
      rfl
    exact run_trans (run_step hstep) (run_step (writeCas_step (addRef_self held it) hl reqCas))

/-- What `complete_nread` needs: what `do_store_item` needs once the data is written. -/
theorem completeNread_run (h : StoreOk cfg s held) (hw : ItemsWf cfg s held) {env : AllocEnv}
    {comm : NRead} {data : Bytes}
    (g : StoreGuard cfg env (s.modify it (writeData 0 data)) held it comm)
    (hc : (completeNread cfg env s it comm data).2.1 = .STORED → w (s.key it) s.casId) :
    ∃ ops, Run (QuietStep cfg w) ⟨s, held⟩ ops
      ⟨(completeNread cfg env s it comm data).1, dropRef held it⟩ := by
  have hl : (s.mem it).linked = false := by
    have hu := g.unlinked
    rwa [modify_mem_self] at hu
  have hwrite : ∃ op, QuietStep cfg w ⟨s, held⟩ op _ :=
    write_step g.held hl (writeData_bytes 0 data (s.mem it))
  obtain ⟨op, hq⟩ := hwrite
  have hkey : (s.modify it (writeData 0 data)).key it = s.key it := by
    obtain ⟨bytes, he, hb⟩ := writeData_bytes 0 data (s.mem it)
    unfold Store.key
    rw [modify_mem_self, he, itemKey_write hb]
  have hstore := doStoreItem_run (w := w) (hq.2.keeps h) (hq.2.keeps_items h hw) g fun hr => by
    change w ((s.modify it (writeData 0 data)).key it) s.casId
    rw [hkey]
    exact hc hr
  unfold completeNread
  exact run_trans (run_step ⟨op, hq⟩) (run_trans hstore (run_step (remove_step g.held)))

theorem getItem_run (h : StoreOk cfg s held) {key : Bytes} (hr : RoomAt cfg s key) :
    ∃ ops, Run (QuietStep cfg w) ⟨s, held⟩ ops
      ⟨(getItem cfg s key).1, giveRef held (getItem cfg s key).2⟩ := by
  unfold getItem
  rcases doItemGet_outcome h hr with ⟨s', he, hg⟩ | ⟨s', old, he, hg⟩
  · rw [he]
    exact run_step (hg.step w)
  · rw [he]
    exact run_trans (run_step (hg.step w)) (run_step (update_step hg.unflushed))

theorem touchItem_run (h : StoreOk cfg s held) {key : Bytes} (exptime : UInt32)
    (hr : RoomAt cfg s key) :
    ∃ ops, Run (QuietStep cfg w) ⟨s, held⟩ ops
      ⟨(touchItem cfg s key exptime).1, giveRef held (touchItem cfg s key exptime).2⟩ := by
  have hstep : ∃ op, QuietStep cfg w ⟨s, held⟩ op _ :=
    ⟨.touch key exptime, ⟨trivial, nofun⟩, .touch s held key exptime hr⟩
  unfold touchItem
  unfold doItemTouch at hstep ⊢
  rcases doItemGet_outcome h hr with ⟨s', he, hg⟩ | ⟨s', old, he, hg⟩
  · rw [he] at hstep ⊢
    exact run_step hstep
  · rw [he] at hstep ⊢
    have hf : flushed (s'.modify old fun i => { i with exptime := exptime })
        ((s'.modify old fun i => { i with exptime := exptime }).mem old) = false := by
      rw [modify_mem_self]
      exact hg.unflushed
    exact run_trans (run_step hstep) (run_step (update_step hf))

end RamCube
