import RamCube.Store.Flushing

/-! # What a command leaves alone

A command changes the items stored under its own key and the item its data is read
into. Any other item that is stored or referred to keeps its contents and stays
stored or not stored, but for a stored item nobody refers to: its chunk may be given
to the item the command allocates. -/
namespace RamCube

variable {cfg : Settings} {processStarted : Int} {s m s' : Store} {it n p old : Ptr}
  {held : Ptr → Nat} {key : Bytes}

/-- From `s` to `m` the item `p` stays as it is, apart from its place in the queue and
its count. -/
structure Untouched (s m : Store) (p : Ptr) : Prop where
  linked : (m.mem p).linked = (s.mem p).linked
  body : (m.mem p).body = (s.mem p).body

theorem Untouched.refl (s : Store) (p : Ptr) : Untouched s s p := ⟨rfl, rfl⟩

theorem Untouched.trans (h : Untouched s m p) (h' : Untouched m s' p) : Untouched s s' p :=
  ⟨h'.linked.trans h.linked, h'.body.trans h.body⟩

theorem Untouched.sameKey (h : Untouched s m p) : m.key p = s.key p := key_of_body h.body

/-- `p` is not what is stored under `key`. -/
def Aside (s : Store) (key : Bytes) (p : Ptr) : Prop := (s.mem p).linked = true → s.key p ≠ key

theorem Aside.ne (h : Aside s key p) (hl : (s.mem old).linked = true) (hk : s.key old = key) :
    p ≠ old := by
  rintro rfl
  exact h hl hk

theorem Untouched.aside (h : Untouched s m p) (ha : Aside s key p) : Aside m key p := by
  intro hl
  rw [h.linked] at hl
  rw [h.sameKey]
  exact ha hl

/-! ## The operations -/

theorem untouched_remove (cfg : Settings) (s : Store) (it p : Ptr) :
    Untouched s (doItemRemove cfg s it) p :=
  ⟨(doItemRemove_mem cfg s it p).2.1, (doItemRemove_mem cfg s it p).1⟩

theorem untouched_modify (hne : p ≠ it) (f : Item → Item) : Untouched s (s.modify it f) p :=
  ⟨by rw [modify_mem_of_ne hne], by rw [modify_mem_of_ne hne]⟩

theorem untouched_update (hne : p ≠ it) : Untouched s (doItemUpdate s it) p := by
  obtain ⟨t, hb, hl, _, ht⟩ := update_mem s it p
  rw [ht.resolve_right fun ht => hne ht.1] at hb
  exact ⟨hl, hb⟩

theorem untouched_unlink (cfg : Settings) (hne : p ≠ it) (hv : UInt32) :
    Untouched s (doItemUnlink cfg s it hv) p := by
  obtain ⟨hb, hl, _⟩ := unlink_mem cfg s it p hv
  exact ⟨by rw [doItemUnlink, hl]; simp [hne], hb⟩

theorem untouched_link (cfg : Settings) (hne : p ≠ it) (hv : UInt32) :
    Untouched s (doItemLink cfg s it hv) p := by
  obtain ⟨hb, hl, _⟩ := (link_mem cfg s it hv).1 p hne
  exact ⟨hl, hb⟩

theorem untouched_replace (cfg : Settings) (hno : n ≠ old) (ho : p ≠ old) (hn : p ≠ n)
    (hv : UInt32) : Untouched s (doItemReplace cfg s old n hv) p := by
  obtain ⟨hb, hl, _⟩ := (replace_mem cfg s old n hv hno).1 p hn
  exact ⟨by rw [hl]; simp [ho], hb⟩

theorem Got.untouched (hg : Got cfg s held key s' old) (p : Ptr) : Untouched s s' p :=
  ⟨hg.linked p, hg.body p⟩

theorem Missed.untouched (hg : Missed cfg s held key s') (hp : Aside s key p) :
    Untouched s s' p := by
  refine ⟨?_, hg.body p⟩
  rw [hg.linked]
  by_cases hl : (s.mem p).linked = true
  · simp [hp hl]
  · simp [Bool.not_eq_true _ ▸ hl]

theorem Got.aside_ne (hg : Got cfg s held key s' old) (hp : Aside s key p) : p ≠ old :=
  hp.ne ((hg.linked old).symm.trans hg.stored) ((hg.untouched old).sameKey.symm.trans hg.key)

theorem expiredOrFlushed_congr {i j : Item} (he : m.env = s.env) (hb : j.body = i.body) :
    expiredOrFlushed m j = expiredOrFlushed s i := by
  have h1 : m.currentTime = s.currentTime := congrArg (·.1) he
  have h2 : m.oldestLive = s.oldestLive := congrArg (·.2.1) he
  unfold expiredOrFlushed
  rw [h1, h2, time_of_body hb, exptime_of_body hb]

theorem slabsAlloc_unlinked (h : StoreOk cfg s held) {id : SlabId} {newslab : Option (List Ptr)}
    (hf : FreshPage s newslab) (he : (slabsAlloc s id newslab).2 = some n) : (s.mem n).linked = false := by
  have hspec := slabsAlloc_spec h id hf
  rw [he] at hspec
  exact h.not_linked_of_zero hspec.2.2.1

/-- Without eviction an allocation takes the chunk of a stored item only if it is expired or
flushed. -/
theorem allocChunk_spared (h : StoreOk cfg s held) {env : AllocEnv} (hf : FreshPage s env.newslab)
    {id : SlabId} {curHv : UInt32} (hr : tailRepairFires cfg env curHv s 5 (s.tails id) = false)
    (hM : cfg.evictToFree = false) (he : allocChunk cfg env s id curHv = (m, some n))
    (hl : (s.mem n).linked = true) : expiredOrFlushed s (s.mem n) = true := by
  unfold allocChunk at he
  rw [allocSearch_eq h env id curHv 5 _ hr] at he
  cases hstop : searchStop cfg env curHv s 5 (s.tails id) with
  | none =>
    simp only [hstop] at he
    rw [slabsAlloc_unlinked h hf (congrArg Prod.snd he)] at hl
    cases hl
  | some search =>
    have h1 := searchStop_spec cfg env curHv s 5 _ hstop
    have hi := h.incr (show 0 < (s.mem search).refcount by omega) (refMod_room cfg (by omega))
    simp only [hstop, searchAt] at he
    by_cases hdead : expiredOrFlushed (refcountIncr cfg s search) ((refcountIncr cfg s search).mem search) = true
    · rw [if_pos hdead] at he
      obtain rfl : search = n := Option.some.inj (congrArg Prod.snd he)
      rwa [expiredOrFlushed_congr rfl (refcount_keeps cfg s search search).1.1] at hdead
    · rw [if_neg hdead] at he
      have hfree : ∀ it, (slabsAlloc (refcountIncr cfg s search) id env.newslab).2 = some it →
          (s.mem it).linked = false := fun it hit =>
        (refcount_keeps cfg s search it).1.2.symm.trans
          (slabsAlloc_unlinked hi (show FreshPage (refcountIncr cfg s search) env.newslab from hf) hit)
      rcases hsa : slabsAlloc (refcountIncr cfg s search) id env.newslab with ⟨s2, _ | it⟩
      · simp [hsa, hM] at he
      · rw [hsa] at he hfree
        obtain rfl : it = n := Option.some.inj (congrArg Prod.snd he)
        rw [hfree it rfl] at hl
        cases hl

theorem doItemAlloc_spared (h : StoreOk cfg s held) {env : AllocEnv} {flags : Int} {exptime : UInt32}
    {nbytes : Nat} {curHv : UInt32} (ha : AllocGuard cfg env s key flags nbytes curHv)
    (hM : cfg.evictToFree = false) (he : doItemAlloc cfg env s key flags exptime nbytes curHv = (m, some n))
    (hl : (s.mem n).linked = true) : expiredOrFlushed s (s.mem n) = true := by
  unfold doItemAlloc at he
  dsimp only at he
  split at he
  · cases he
  · have hrepair := ha.noRepair
    unfold allocClass at hrepair
    generalize slabsClsid cfg.slabclass (itemMakeHeader cfg (key.length + 1) flags nbytes) = id at he hrepair
    rcases hc : allocChunk cfg env s id curHv with ⟨s1, _ | it⟩
    · rw [hc] at he
      cases he
    · rw [hc] at he
      obtain rfl : it = n := Option.some.inj (congrArg Prod.snd he)
      exact allocChunk_spared h ha.page hrepair hM hc hl

/-- The chunk of `p` went to an item of the command: what it holds now is not stored, or is
stored under the key of the command. Without eviction `p` was not alive. -/
structure ChunkTaken (cfg : Settings) (s m : Store) (held : Ptr → Nat) (key : Bytes) (p : Ptr) : Prop where
  unheld : held p = 0
  key : (m.mem p).linked = true → m.key p = key
  dead : cfg.evictToFree = false → (s.mem p).linked = true → expiredOrFlushed s (s.mem p) = true

/-- What a command does to an item it is not about. -/
def Apart (cfg : Settings) (s m : Store) (held : Ptr → Nat) (key : Bytes) (p : Ptr) : Prop :=
  Untouched s m p ∨ ChunkTaken cfg s m held key p

theorem Apart.after (h : Apart cfg m s' held key p) (hu : Untouched s m p) (he : m.env = s.env) :
    Apart cfg s s' held key p := by
  refine h.imp hu.trans fun ht => ⟨ht.unheld, ht.key, fun hM hl => ?_⟩
  rw [← expiredOrFlushed_congr he hu.body]
  exact ht.dead hM (hu.linked.trans hl)

theorem Apart.before (h : Apart cfg s m held key p) (hu : Untouched m s' p) : Apart cfg s s' held key p := by
  refine h.imp (·.trans hu) fun ht => ⟨ht.unheld, fun hl => ?_, ht.dead⟩
  rw [hu.linked] at hl
  exact hu.sameKey.trans (ht.key hl)

theorem Apart.of_addRef (h : Apart cfg s m (addRef held old) key p) (hne : p ≠ old) :
    Apart cfg s m held key p := by
  refine h.imp id fun ht => ⟨?_, ht.key, ht.dead⟩
  rw [← ht.unheld, addRef, Function.update_of_ne hne]

/-- A copy is made and takes the place of the old item. -/
theorem FreshCopy.apart (hf : FreshCopy cfg s m held n key) (hno : n ≠ old) (hpo : p ≠ old)
    (hp : (s.mem p).linked = true ∨ 0 < held p) (hv : UInt32)
    (hdead : cfg.evictToFree = false → (s.mem n).linked = true → expiredOrFlushed s (s.mem n) = true) :
    Apart cfg s (doItemReplace cfg m old n hv) held key p := by
  by_cases hpn : p = n
  · subst hpn
    obtain ⟨_, l2, _⟩ := replace_mem cfg m old p hv hno
    exact .inr ⟨hf.unheld, fun _ => (linked_stored l2 itemKey (fun _ => rfl) fun _ _ => rfl).trans hf.key, hdead⟩
  · obtain ⟨hb, hl⟩ := hf.others p hpn hp
    exact .inl ((Untouched.mk hl hb).trans (untouched_replace cfg hno hpo hpn hv))

/-! ## The commands -/

theorem getItem_untouched (h : StoreOk cfg s held) (hr : RoomAt cfg s key) (hp : Aside s key p) :
    Untouched s (getItem cfg s key).1 p := by
  unfold getItem
  rcases doItemGet_outcome h hr with ⟨s', he, hg⟩ | ⟨s', old, he, hg⟩
  · rw [he]
    exact hg.untouched hp
  · rw [he]
    exact (hg.untouched p).trans (untouched_update (hg.aside_ne hp))

theorem touchItem_untouched (h : StoreOk cfg s held) (exptime : UInt32) (hr : RoomAt cfg s key)
    (hp : Aside s key p) : Untouched s (touchItem cfg s key exptime).1 p := by
  unfold touchItem doItemTouch
  rcases doItemGet_outcome h hr with ⟨s', he, hg⟩ | ⟨s', old, he, hg⟩
  · rw [he]
    exact hg.untouched hp
  · rw [he]
    have hne := hg.aside_ne hp
    exact (hg.untouched p).trans ((untouched_modify hne _).trans (untouched_update hne))

theorem deleteItem_untouched (h : StoreOk cfg s held) (cas : UInt64) (hr : RoomAt cfg s key)
    (hp : Aside s key p) : Untouched s (deleteItem cfg s key cas).1 p := by
  unfold deleteItem
  rcases doItemGet_outcome h hr with ⟨s', he, hg⟩ | ⟨s', old, he, hg⟩
  · rw [he]
    exact hg.untouched hp
  · rw [he]
    dsimp only
    split
    · exact (hg.untouched p).trans ((untouched_unlink cfg (hg.aside_ne hp) _).trans
        (untouched_remove cfg _ old p))
    · exact (hg.untouched p).trans (untouched_remove cfg s' old p)

theorem doAddDelta_apart (h : StoreOk cfg s held) {env : AllocEnv} {incr : Bool} {delta : UInt64}
    (cas : UInt64) (g : DeltaGuard cfg env s key incr delta)
    (hp : (s.mem p).linked = true ∨ 0 < held p) (ha : Aside s key p) :
    Apart cfg s (doAddDelta cfg env s key incr delta cas (cfg.hash key)).1 held key p := by
  unfold doAddDelta doAddDeltaReading
  rcases doItemGet_outcome h g.roomAt with ⟨s', he, hg⟩ | ⟨s', old, he, hg⟩
  · rw [he]
    exact .inl (hg.untouched ha)
  · rw [he]
    have hne := hg.aside_ne ha
    have hgive : Apart cfg s (doItemRemove cfg s' old) held key p :=
      .inl ((hg.untouched p).trans (untouched_remove cfg s' old p))
    dsimp only
    by_cases hm : cas ≠ 0 ∧ itemGetCas (s'.mem old) ≠ cas
    · rw [if_pos hm]
      exact hgive
    · rw [if_neg hm]
      cases hv : safeStrtoull (dataString cfg (s'.mem old)) with
      | none => exact hgive
      | some value =>
        dsimp only
        rw [if_pos (.inr (hg.shared h))]
        have hal := g.alloc s' old value he hv
        generalize decimal (deltaValue incr delta value).toNat = buf at hal ⊢
        have hkey : itemKey (s'.mem old) = key := hg.key
        rw [hkey]
        rcases hc : doItemAlloc cfg env s' key (strtol ((itemSuffix (s'.mem old)).drop 1))
          (s'.mem old).exptime (buf.length + 2) (cfg.hash key) with ⟨s2, r⟩
        cases r with
        | none =>
          rcases doItemAlloc_spec (hg.ok h) hal.page key _ (s'.mem old).exptime _ _ hal.noRepair with
            he' | ⟨_, _, _, _, he', _⟩
          · obtain rfl : s2 = s' := congrArg Prod.fst (hc.symm.trans he')
            exact hgive
          · rw [hc] at he'
            cases he'
        | some n =>
          obtain ⟨_, hfc⟩ := freshCopy (hg.ok h) hal hc (writeData_bytes 0 (buf ++ [13, 10]) (s2.mem n))
          have hno : n ≠ old := (hfc.ne (addRef_self held old)).symm
          have hp' : (s'.mem p).linked = true ∨ 0 < addRef held old p :=
            hp.imp (fun hl => (hg.linked p).trans hl) fun hh => addRef_other hh hne
          have hcopy := (hfc.apart hno hne hp' (cfg.hash key) fun hM =>
            doItemAlloc_spared (hg.ok h) hal hM hc).of_addRef hne
          refine (hcopy.before ?_).after (hg.untouched p) hg.env
          exact (untouched_modify hne _).trans ((untouched_remove cfg _ n p).trans
            (untouched_remove cfg _ old p))

theorem failedUpdate_untouched (h : StoreOk cfg s held) (comm : NRead) (hr : RoomAt cfg s key)
    (hp : Aside s key p) : Untouched s (failedUpdate cfg s comm key) p := by
  unfold failedUpdate
  split
  · exact deleteItem_untouched h 0 hr hp
  · exact .refl s p

theorem processUpdate_apart (h : StoreOk cfg s held) {env : AllocEnv} {comm : NRead} {flags : Int}
    {exptime : UInt32} {vlen : Nat} (reqCas : UInt64) (ha : AllocGuard cfg env s key flags vlen 0)
    (hr : RoomAt cfg s key) (hp : (s.mem p).linked = true ∨ 0 < held p) (hpk : Aside s key p) :
    Apart cfg s (processUpdate cfg env s comm key flags exptime vlen reqCas).1 held key p := by
  unfold processUpdate
  rcases doItemAlloc_spec h ha.page key flags exptime vlen 0 ha.noRepair with
    he | ⟨s', n, id, i, he, _, hk, hm⟩
  · rw [he]
    dsimp only
    split
    · exact .inl (deleteItem_untouched h 0 hr hpk)
    · exact .inl (.refl s p)
  · rw [he]
    dsimp only
    by_cases hpn : p = n
    · subst hpn
      have hc := h.refcount_eq p
      rw [hk.count] at hc
      refine .inr ⟨by omega, fun hl => ?_, fun hM => doItemAlloc_spared h ha hM he⟩
      rw [modify_mem_self, itemSetCas_field (·.linked) (fun _ _ => rfl), hm] at hl
      cases hl
    · have halloc : Untouched s s' p := by
        refine ⟨?_, hk.body p hpn (h.carved_of hp)⟩
        rw [hk.linked]
        simp [hpn]
      exact .inl (halloc.trans (untouched_modify hpn _))

theorem storeMerged_apart (hg : Got cfg s held (s.key it) s' old) (h : StoreOk cfg s held)
    {env : AllocEnv} {comm : NRead} (g : StoreGuard cfg env s held it comm)
    (he : doItemGet cfg s (s.key it) (cfg.hash (s.key it)) = (s', some old))
    (hm : MergeWanted comm (s'.mem it) (s'.mem old))
    (hp : (s.mem p).linked = true ∨ 0 < held p) (ha : Aside s (s.key it) p) :
    Apart cfg s (storeMerged cfg env s' old it comm (cfg.hash (s.key it))).1 held (s.key it) p := by
  have hne := hg.aside_ne ha
  have hal := g.alloc s' old he hm
  have hk : itemKey (s'.mem it) = s.key it := (hg.untouched it).sameKey
  unfold storeMerged
  dsimp only
  rw [hk]
  rcases hc : doItemAlloc cfg env s' (s.key it) (itemFlags (s'.mem old)) (s'.mem old).exptime
    ((s'.mem it).nbytes + (s'.mem old).nbytes - 2) (cfg.hash (s.key it)) with ⟨s2, r⟩
  cases r with
  | none =>
    rcases doItemAlloc_spec (hg.ok h) hal.page (s.key it) _ (s'.mem old).exptime _ _ hal.noRepair with
      he' | ⟨_, _, _, _, he', _⟩
    · obtain rfl : s2 = s' := congrArg Prod.fst (hc.symm.trans he')
      exact .inl ((hg.untouched p).trans (untouched_remove cfg _ old p))
    · rw [hc] at he'
      cases he'
  | some n =>
    obtain ⟨_, hfc⟩ := freshCopy (hg.ok h) hal hc
      (mergeData_bytes comm (s2.mem old) (s2.mem it) (s2.mem n))
    have hno : n ≠ old := (hfc.ne (addRef_self held old)).symm
    have hp' : (s'.mem p).linked = true ∨ 0 < addRef held old p :=
      hp.imp (fun hl => (hg.linked p).trans hl) fun hh => addRef_other hh hne
    have hcopy := (hfc.apart hno hne hp' (cfg.hash (s.key it)) fun hM =>
      doItemAlloc_spared (hg.ok h) hal hM hc).of_addRef hne
    refine (hcopy.before ?_).after (hg.untouched p) hg.env
    exact (untouched_remove cfg _ old p).trans (untouched_remove cfg _ n p)

theorem doStoreItem_apart (h : StoreOk cfg s held) {env : AllocEnv} {comm : NRead}
    (g : StoreGuard cfg env s held it comm) (hp : (s.mem p).linked = true ∨ 0 < held p)
    (ha : Aside s (s.key it) p) (hpi : p ≠ it) :
    Apart cfg s (doStoreItem cfg env s it comm (cfg.hash (s.key it))).1 held (s.key it) p := by
  unfold doStoreItem
  rcases doItemGet_outcome h g.roomAt with ⟨s', he, hg⟩ | ⟨s', old, he, hg⟩
  · rw [he]
    have hmiss : Apart cfg s s' held (s.key it) p := .inl (hg.untouched ha)
    have hlink := hmiss.before (untouched_link cfg hpi (cfg.hash (s.key it)))
    cases comm with
    | add | set => exact hlink
    | replace | append | prepend | cas => exact hmiss
  · rw [he]
    have hne := hg.aside_ne ha
    have hgot : Apart cfg s s' held (s.key it) p := .inl (hg.untouched p)
    have hgive := hgot.before (untouched_remove cfg s' old p)
    have hover := (hgot.before (untouched_replace cfg (hg.ne g.unlinked) hne hpi
      (cfg.hash (s.key it)))).before (untouched_remove cfg _ old p)
    have hmerge : comm = .append ∨ comm = .prepend → Apart cfg s (if itemGetCas (s'.mem it) ≠ 0 ∧
        itemGetCas (s'.mem it) ≠ itemGetCas (s'.mem old) then
          (doItemRemove cfg s' old, StoreItemType.EXISTS, it)
        else storeMerged cfg env s' old it comm (cfg.hash (s.key it))).1 held (s.key it) p := by
      intro hcomm
      split
      · exact hgive
      · rename_i hm
        exact storeMerged_apart hg h g he ⟨hcomm, hm⟩ hp ha
    cases comm with
    | add => exact (hgot.before (untouched_update hne)).before (untouched_remove cfg _ old p)
    | set | replace => exact hover
    | append => exact hmerge (.inl rfl)
    | prepend => exact hmerge (.inr rfl)
    | cas =>
      dsimp only
      split
      · exact hover
      · exact hgive

theorem completeNread_apart (h : StoreOk cfg s held) {env : AllocEnv} {comm : NRead} {data : Bytes}
    (g : StoreGuard cfg env (s.modify it (writeData 0 data)) held it comm)
    (hp : (s.mem p).linked = true ∨ 0 < held p) (ha : Aside s (s.key it) p) (hpi : p ≠ it) :
    Apart cfg s (completeNread cfg env s it comm data).1 held (s.key it) p := by
  have hwb := writeData_bytes 0 data (s.mem it)
  have hl : (s.mem it).linked = false := by
    have hu := g.unlinked
    rwa [modify_field (·.linked) rfl] at hu
  obtain ⟨op, hw⟩ : ∃ op, QuietStep cfg (fun _ _ => True) ⟨s, held⟩ op _ := write_step g.held hl hwb
  have hkey : (s.modify it (writeData 0 data)).key it = s.key it := by
    obtain ⟨bytes, he, hb⟩ := hwb
    unfold Store.key
    rw [modify_mem_self, he, itemKey_write hb]
  have hwrite : Untouched s (s.modify it (writeData 0 data)) p := untouched_modify hpi _
  have hstore := doStoreItem_apart (hw.2.keeps h) g (by rwa [hwrite.linked])
    (hkey ▸ hwrite.aside ha) hpi
  rw [hkey] at hstore
  unfold completeNread
  dsimp only
  rw [hkey]
  exact (hstore.before (untouched_remove cfg _ it p)).after hwrite rfl

/-! ## Clients -/

/-- The key a command names. -/
def keyNamed (s : Store) : ClientOp → Option Bytes
  | .get key | .touch key _ | .delete key _ | .delta _ key _ _ _ | .update _ _ key _ _ _ _ => some key
  | .complete _ it _ _ => some (s.key it)
  | _ => none

/-- The commands that are about a key; a flush is about every key. -/
def Names (s : ItemsState) (op : ClientOp) (key : Bytes) : Prop :=
  keyNamed s.store op = some key ∨ ∃ exptime, op = .flushAll exptime

/-- The commands that allocate an item. -/
def Allocates : ClientOp → Prop
  | .delta _ _ _ _ _ | .update _ _ _ _ _ _ _ | .complete _ _ _ _ => True
  | _ => False

/-- The condition on a command: no count is full, no tail repair happens, and a length below 2
is refused. -/
def Unhindered (cfg : Settings) (processStarted : Int) (s : ItemsState) : ClientOp → Prop
  | .flushAll _ => True
  | op => KeepsFlushed cfg processStarted s op

/-- `p` is not the item the command read its data into. -/
def NotUsed (p : Ptr) : ClientOp → Prop
  | .complete _ it _ _ => p ≠ it
  | _ => True

/-- A retrieval returns what is stored under its key unless it is flushed or expired. -/
theorem getItem_returns (h : StoreOk cfg s held) (hreb : s.slabRebal = none) (hl : (s.mem it).linked = true)
    (hk : s.key it = key) :
    (getItem cfg s key).2 = some it ↔ flushedOrExpired s (s.mem it) = false := by
  unfold getItem
  rcases doItemGet_cases h key with ⟨_, hn⟩ | ⟨q, s', he, hq, hqk, hd, _⟩ | ⟨q, s', he, hq, hqk, _, hd, _⟩
  · exact absurd hk (hn it hl)
  · obtain rfl : q = it := h.key_inj hq hl (hqk.trans hk.symm)
    have hdead := hd.resolve_left (by simp [inRebalance, hreb])
    simp [he, hdead]
  · obtain rfl : q = it := h.key_inj hq hl (hqk.trans hk.symm)
    simp [he, hd]

/-- A command stores something only under a key it names. -/
theorem Stores.names {s : ItemsState} {op : ClientOp} (h : Stores cfg s op key) : Names s op key := by
  cases op with
  | complete env it comm data => exact .inl (congrArg some h.1)
  | delta env key' incr delta cas => exact .inl (congrArg some h.1)
  | _ => exact h.elim

theorem Unhindered.keeps {s : ItemsState} {op : ClientOp} (hq : Unhindered cfg processStarted s op)
    (hf : ∀ exptime, op ≠ .flushAll exptime) : KeepsFlushed cfg processStarted s op := by
  cases op with
  | flushAll exptime => exact absurd rfl (hf exptime)
  | _ => exact hq

/-- Steps of item operations leave the clock and the flush mark alone. -/
theorem quiet_clock {w : Bytes → UInt64 → Prop} {s s' : ItemsState} (h : StoreOk cfg s.store s.held)
    (hr : ∃ ops, Run (QuietStep cfg w) s ops s') :
    s'.store.currentTime = s.store.currentTime ∧ s'.store.oldestLive = s.store.oldestLive ∧
      s'.store.slabRebal = s.store.slabRebal := by
  obtain ⟨ops, hr⟩ := hr
  induction hr with
  | nil => exact ⟨rfl, rfl, rfl⟩
  | cons hs _ ih =>
    obtain ⟨h1, h2, h3⟩ := (hs.2.env h).2 hs.1.1.timeless
    obtain ⟨i1, i2, i3⟩ := ih (hs.2.keeps h)
    exact ⟨i1.trans h1, i2.trans h2, i3.trans h3⟩

/-- What holds of the store whatever the clients do. -/
structure ClientInv (cfg : Settings) (s : ItemsState) : Prop extends FlushInv cfg s where
  rebal : s.store.slabRebal = none

theorem clientInv_init (cfg : Settings) (n : Nat) : ClientInv cfg (itemsInit n) :=
  ⟨flushInv_init cfg n, rfl⟩

/-- The clock never runs back, and only a flush sets the flush mark. -/
structure ClockKept (s s' : ItemsState) (op : ClientOp) : Prop where
  now : s.store.currentTime ≤ s'.store.currentTime
  mark : (∀ exptime, op ≠ .flushAll exptime) → s'.store.oldestLive = s.store.oldestLive

theorem ClientStep.keeps_inv {s s' : ItemsState} {op : ClientOp} (h : ClientInv cfg s)
    (hq : Unhindered cfg processStarted s op) (hs : ClientStep cfg processStarted s op s') :
    ClientInv cfg s' ∧ ClockKept s s' op := by
  have hrun : ∀ t : ItemsState, (∃ ops, Run (QuietStep cfg fun _ _ => True) s ops t) →
      t.store.slabRebal = none ∧ ClockKept s t op := by
    intro t hr
    obtain ⟨h1, h2, h3⟩ := quiet_clock h.ok hr
    exact ⟨h3.trans h.rebal, UInt32.le_of_eq h1.symm, fun _ => h2⟩
  have hages := fun hf => (hs.ages h.toFlushInv (hq.keeps hf)).inv
  have hjoin : (∀ exptime, op ≠ .flushAll exptime) →
      s'.store.slabRebal = none ∧ ClockKept s s' op → ClientInv cfg s' ∧ ClockKept s s' op :=
    fun hf hc => ⟨⟨hages hf, hc.1⟩, hc.2⟩
  cases hs with
  | get s held key => exact hjoin nofun (hrun _ (getItem_run h.ok hq))
  | touch s held key exptime => exact hjoin nofun (hrun _ (touchItem_run h.ok exptime hq))
  | delete s held key cas => exact hjoin nofun (hrun _ (deleteItem_run h.ok cas hq))
  | delta s held env key incr delta cas =>
    exact hjoin nofun (hrun _ (doAddDelta_run h.ok cas hq fun _ => trivial))
  | update s held env comm key flags exptime vlen reqCas hn =>
    exact hjoin nofun (hrun _ (processUpdate_run h.ok reqCas (by omega) (hq.alloc hn) hq.room))
  | shortNone s held env comm key flags exptime vlen reqCas hn hcall =>
    obtain rfl := hq.refused hn hcall
    exact hjoin nofun (hrun _ (failedUpdate_run h.ok comm hq.room))
  | shortSome s held env comm key flags exptime vlen reqCas hn hcall => exact absurd hcall (hq.not_taken hn)
  | complete s held env it comm data hh hl =>
    exact hjoin nofun (hrun _ (completeNread_run h.ok h.items hq fun _ => trivial))
  | release s held it hh => exact hjoin nofun (hrun _ (run_step (remove_step hh)))
  | flushAll s held exptime =>
    have hmark : FlushInv cfg ⟨{ s with oldestLive := flushMark processStarted s exptime }, held⟩ :=
      h.step (.clock s held s.currentTime (flushMark processStarted s exptime) s.slabRebal)
        (UInt32.le_refl s.currentTime)
    have henv := (flush_mem cfg { s with oldestLive := flushMark processStarted s exptime } 0).2.2.1
    refine ⟨⟨hmark.step (.flushExpired _ held) trivial, ?_⟩, ?_, fun hf => absurd rfl (hf exptime)⟩
    · exact (congrArg (·.2.2.1) henv).trans h.rebal
    · exact UInt32.le_of_eq (congrArg (·.1) henv).symm
  | tick s held now hle => exact hjoin nofun ⟨h.rebal, hle, fun _ => rfl⟩
  | expand s held ok he hp => exact hjoin nofun ⟨h.rebal, UInt32.le_refl _, fun _ => rfl⟩
  | migrate s held he => exact hjoin nofun ⟨h.rebal, UInt32.le_refl _, fun _ => rfl⟩

theorem ClientStep.run_inv {s s' : ItemsState} {ops : List ClientOp} (h : ClientInv cfg s)
    (hr : Run (Guarded (Unhindered cfg processStarted) (ClientStep cfg processStarted)) s ops s') :
    ClientInv cfg s' ∧ s.store.currentTime ≤ s'.store.currentTime := by
  induction hr with
  | nil => exact ⟨h, UInt32.le_refl _⟩
  | cons hs _ ih =>
    obtain ⟨hinv, hclock⟩ := hs.2.keeps_inv h hs.1
    obtain ⟨hinv', hle⟩ := ih hinv
    exact ⟨hinv', UInt32.le_trans hclock.now hle⟩

/-- What a command does to an item it is not about: nothing, or it takes its chunk. -/
theorem ClientStep.apart {s s' : ItemsState} {op : ClientOp} (h : ClientInv cfg s)
    (hq : Unhindered cfg processStarted s op) (hs : ClientStep cfg processStarted s op s')
    (hp : (s.store.mem p).linked = true ∨ 0 < s.held p)
    (hk : (s.store.mem p).linked = true → ¬Names s op (s.store.key p)) (hu : NotUsed p op) :
    Untouched s.store s'.store p ∨
      Allocates op ∧ ∃ key, keyNamed s.store op = some key ∧ ChunkTaken cfg s.store s'.store s.held key p := by
  have haside : ∀ key, keyNamed s.store op = some key → Aside s.store key p :=
    fun key hkey hl he => hk hl (.inl (he ▸ hkey))
  cases hs with
  | get s held key => exact .inl (getItem_untouched h.ok hq (haside key rfl))
  | touch s held key exptime => exact .inl (touchItem_untouched h.ok exptime hq (haside key rfl))
  | delete s held key cas => exact .inl (deleteItem_untouched h.ok cas hq (haside key rfl))
  | delta s held env key incr delta cas =>
    exact (doAddDelta_apart h.ok cas hq hp (haside key rfl)).imp id fun ht => ⟨trivial, key, rfl, ht⟩
  | update s held env comm key flags exptime vlen reqCas hn =>
    exact (processUpdate_apart h.ok reqCas (hq.alloc hn) hq.room hp (haside key rfl)).imp id
      fun ht => ⟨trivial, key, rfl, ht⟩
  | shortNone s held env comm key flags exptime vlen reqCas hn hcall =>
    obtain rfl := hq.refused hn hcall
    exact .inl (failedUpdate_untouched h.ok comm hq.room (haside key rfl))
  | shortSome s held env comm key flags exptime vlen reqCas hn hcall => exact absurd hcall (hq.not_taken hn)
  | complete s held env it comm data hh hl =>
    exact (completeNread_apart h.ok hq hp (haside _ rfl) hu).imp id fun ht => ⟨trivial, _, rfl, ht⟩
  | release s held it hh => exact .inl (untouched_remove cfg s it p)
  | flushAll s held exptime =>
    have hmem := flush_mem cfg { s with oldestLive := flushMark processStarted s exptime } p
    have hl : (s.mem p).linked = false := by
      by_contra hl
      exact hk (by simpa using hl) (.inr ⟨exptime, rfl⟩)
    refine .inl ⟨?_, hmem.1⟩
    rw [hl]
    by_contra hc
    have hl' : (s.mem p).linked = true := hmem.2.1 (eq_true_of_ne_false hc)
    rw [hl] at hl'
    cases hl'
  | tick s held now hle => exact .inl ⟨rfl, rfl⟩
  | expand s held ok he hle => exact .inl ⟨rfl, rfl⟩
  | migrate s held he => exact .inl ⟨rfl, rfl⟩

end RamCube
