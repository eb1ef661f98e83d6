import RamCube.Store.Clients

/-! # What a flush hides

A `flush_all` with no delay hides or unlinks every stored item. What it hides stays
hidden as long as no later `flush_all` sets a mark that is not in force at once, so
that a retrieval finds only what was stored since. -/
namespace RamCube

variable {cfg : Settings} {processStarted : Int} {s s' t : ItemsState} {key : Bytes}

/-- The condition on a command: no count is full, no tail repair happens, a length below 2 is
refused, and while there are flushed items, a new flush mark is in force at once. -/
def KeepsFlushed (cfg : Settings) (processStarted : Int) (s : ItemsState) : ClientOp → Prop
  | .get key | .touch key _ | .delete key _ => RoomAt cfg s.store key
  | .delta env key incr delta _ => DeltaGuard cfg env s.store key incr delta
  | .update env _ key flags _ vlen _ => UpdateGuard cfg env s.store key flags vlen
  | .complete env it comm data =>
    StoreGuard cfg env (s.store.modify it (writeData 0 data)) s.held it comm
  | .flushAll exptime => Flushed s.store → flushMark processStarted s.store exptime ≠ 0 ∧
      flushMark processStarted s.store exptime ≤ s.store.currentTime
  | _ => True

/-- A command that stores something under a key. -/
def Stores (cfg : Settings) (s : ItemsState) : ClientOp → Bytes → Prop
  | .complete env it comm data, key =>
    s.store.key it = key ∧ (completeNread cfg env s.store it comm data).2.1 = .STORED
  | .delta env key' incr delta cas, key =>
    key' = key ∧ (doAddDelta cfg env s.store key' incr delta cas (cfg.hash key')).2.result = .OK
  | _, _ => False

/-- The item a retrieval returns. -/
def returned (cfg : Settings) (s : Store) : ClientOp → Option Ptr
  | .get key => (getItem cfg s key).2
  | .touch key exptime => (touchItem cfg s key exptime).2
  | _ => none

abbrev FlushStep (cfg : Settings) (processStarted : Int) : ItemsState → ClientOp → ItemsState → Prop :=
  Guarded (KeepsFlushed cfg processStarted) (ClientStep cfg processStarted)

/-- One of the commands of a run stored this value under this key. -/
def StoredIn (cfg : Settings) (processStarted : Int) (s : ItemsState) (ops : List ClientOp)
    (s' : ItemsState) (key value : Bytes) : Prop :=
  ∃ as op bs t t', ops = as ++ op :: bs ∧ Run (ClientStep cfg processStarted) s as t ∧
    ClientStep cfg processStarted t op t' ∧ Run (ClientStep cfg processStarted) t' bs s' ∧
    Stores cfg t op key ∧ ∃ e, binding cfg t'.store key = some e ∧ e.value = value

/-! ## What a step does to the items stored before it -/

structure FlushInv (cfg : Settings) (s : ItemsState) : Prop where
  ok : StoreOk cfg s.store s.held
  items : ItemsWf cfg s.store s.held
  order : OrderOk s.store

theorem FlushInv.step {op : ItemsOp} (h : FlushInv cfg s) (hs : ItemsStep cfg s op s')
    (hf : Forward s op) : FlushInv cfg s' :=
  ⟨hs.keeps h.ok, hs.keeps_items h.ok h.items, hs.keeps_order h.ok h.items h.order hf⟩

theorem flushInv_init (cfg : Settings) (n : Nat) : FlushInv cfg (itemsInit n) :=
  ⟨(storeInv_init cfg n).ok, (storeInv_init cfg n).wf.items, (storeInv_init cfg n).order⟩

/-- `q`, stored after a step, was stored before it with the same contents, and is not
brought back to life. -/
structure Carried (s s' : Store) (q : Ptr) : Prop where
  linked : (s.mem q).linked = true
  stored : (s'.mem q).stored = (s.mem q).stored
  dead : flushedOrExpired s (s.mem q) = true → flushedOrExpired s' (s'.mem q) = true

theorem Carried.trans {s t s' : Store} {q : Ptr} (h : Carried s t q) (h' : Carried t s' q) :
    Carried s s' q :=
  ⟨h.linked, h'.stored.trans h.stored, fun hd => h'.dead (h.dead hd)⟩

/-- Every item after a step was carried through it, or stored by it under a key of `w`. -/
structure Ages (cfg : Settings) (w : Bytes → Prop) (s s' : ItemsState) : Prop where
  inv : FlushInv cfg s'
  now : s.store.currentTime ≤ s'.store.currentTime
  items : ∀ q, (s'.store.mem q).linked = true →
    Carried s.store s'.store q ∨ w (s'.store.key q)

theorem Ages.refl {w : Bytes → Prop} (h : FlushInv cfg s) : Ages cfg w s s :=
  ⟨h, UInt32.le_refl _, fun _ hq => .inl ⟨hq, rfl, id⟩⟩

theorem Ages.trans {w : Bytes → Prop} (h : Ages cfg w s t) (h' : Ages cfg w t s') :
    Ages cfg w s s' := by
  refine ⟨h'.inv, UInt32.le_trans h.now h'.now, fun q hq => ?_⟩
  rcases h'.items q hq with hc | hw
  · rcases h.items q hc.linked with hc' | hw
    · exact .inl (hc'.trans hc)
    · right
      rwa [show s'.store.key q = t.store.key q from stored_field itemKey (fun _ => rfl) hc.stored]
  · exact .inr hw

/-- A link leaves the key of the item it links. -/
theorem ItemsStep.key_linked {op : ItemsOp} {q : Ptr} (hs : ItemsStep cfg s op s')
    (hq : LinksItem op q) : s'.store.key q = s.store.key q := by
  cases hs with
  | link s held it hh hl hk hroom =>
    obtain rfl : q = it := hq
    obtain ⟨_, l2, _⟩ := link_mem cfg s q (cfg.hash (s.key q))
    exact linked_stored l2 itemKey (fun _ => rfl) fun _ _ => rfl
  | replace s held it newIt hl hh hn hk hroom =>
    obtain rfl : q = newIt := hq
    have hne : q ≠ it := by
      rintro rfl
      rw [hl] at hn
      cases hn
    obtain ⟨_, l2, _⟩ := replace_mem cfg s it q (cfg.hash (s.key it)) hne
    exact linked_stored l2 itemKey (fun _ => rfl) fun _ _ => rfl
  | _ => exact hq.elim

theorem Ages.of_quiet {w : Bytes → Prop} (h : FlushInv cfg s) {op : ItemsOp}
    (hs : QuietStep cfg (fun key _ => w key) s op s') : Ages cfg w s s' := by
  obtain ⟨⟨hq, hw⟩, hs⟩ := hs
  obtain ⟨hnow, hmark, _⟩ := (hs.env h.ok).2 hq.timeless
  refine ⟨h.step hs hq.forward, UInt32.le_of_eq hnow.symm, fun q hl => ?_⟩
  rcases hs.kept h.ok h.items q hl with hk | ⟨hop, _⟩
  · exact .inl ⟨hk.linked, hk.stored, hk.dead hq hnow hmark⟩
  · right
    rw [hs.key_linked hop]
    exact hw q hop

/-- A command that is a run of item operations. -/
theorem Ages.of_run {w : Bytes → Prop} (h : FlushInv cfg s)
    (hr : ∃ ops, Run (QuietStep cfg fun key _ => w key) s ops s') : Ages cfg w s s' := by
  obtain ⟨ops, hr⟩ := hr
  induction hr with
  | nil s => exact .refl h
  | cons hs _ ih =>
    have hstep := Ages.of_quiet h hs
    exact hstep.trans (ih hstep.inv)

/-- A step that changes no item. -/
theorem Ages.of_mem {w : Bytes → Prop} (h : FlushInv cfg s') (hm : s'.store.mem = s.store.mem)
    (hnow : s.store.currentTime ≤ s'.store.currentTime)
    (hd : ∀ i, flushedOrExpired s.store i = true → flushedOrExpired s'.store i = true) :
    Ages cfg w s s' := by
  refine ⟨h, hnow, fun q hq => .inl ?_⟩
  rw [hm] at hq
  exact ⟨hq, by rw [hm], by rw [hm]; exact hd _⟩

theorem ClientStep.ages {op : ClientOp} (h : FlushInv cfg s)
    (hq : KeepsFlushed cfg processStarted s op) (hs : ClientStep cfg processStarted s op s') :
    Ages cfg (Stores cfg s op) s s' := by
  cases hs with
  | get s held key => exact .of_run h (getItem_run h.ok hq)
  | touch s held key exptime => exact .of_run h (touchItem_run h.ok exptime hq)
  | delete s held key cas => exact .of_run h (deleteItem_run h.ok cas hq)
  | delta s held env key incr delta cas =>
    exact .of_run h (doAddDelta_run h.ok cas hq fun hr => ⟨rfl, hr⟩)
  | update s held env comm key flags exptime vlen reqCas hn =>
    exact .of_run h (processUpdate_run h.ok reqCas (by omega) (hq.alloc hn) hq.room)
  | shortNone s held env comm key flags exptime vlen reqCas hn hcall =>
    obtain rfl := hq.refused hn hcall
    exact .of_run h (failedUpdate_run h.ok comm hq.room)
  | shortSome s held env comm key flags exptime vlen reqCas hn hcall => exact absurd hcall (hq.not_taken hn)
  | complete s held env it comm data hh hl =>
    exact .of_run h (completeNread_run h.ok h.items hq fun hr => ⟨rfl, hr⟩)
  | release s held it hh => exact .of_run h (run_step (remove_step hh))
  | flushAll s held exptime =>
    have hmark : FlushInv cfg ⟨{ s with oldestLive := flushMark processStarted s exptime }, held⟩ :=
      h.step (.clock s held s.currentTime (flushMark processStarted s exptime) s.slabRebal)
        (UInt32.le_refl s.currentTime)
    have hmem := fun q => flush_mem cfg { s with oldestLive := flushMark processStarted s exptime } q
    refine ⟨hmark.step (.flushExpired _ held) trivial, ?_, fun q hl => .inl ?_⟩
    · exact UInt32.le_of_eq (congrArg (·.1) (hmem 0).2.2.1).symm
    · exact ⟨(hmem q).2.1 hl, stored_of_body (hmem q).1, dead_flush h.ok h.order hq hl⟩
  | tick s held now hle =>
    exact .of_mem (h.step (.clock s held now s.oldestLive s.slabRebal) hle) rfl hle (dead_tick hle)
  | expand s held ok he hp =>
    exact .of_mem (h.step (.expand s held ok he hp) trivial) rfl (UInt32.le_refl _) fun _ => id
  | migrate s held he =>
    exact .of_mem (h.step (.migrate s held he) trivial) rfl (UInt32.le_refl _) fun _ => id

/-! ## What a run does -/

/-- An item stored at the end of a run was carried through all of it, or one of its
commands stored it. -/
theorem FlushStep.run_items {ops : List ClientOp} (h : FlushInv cfg s)
    (hr : Run (FlushStep cfg processStarted) s ops s') :
    FlushInv cfg s' ∧ s.store.currentTime ≤ s'.store.currentTime ∧
      ∀ q, (s'.store.mem q).linked = true → Carried s.store s'.store q ∨
        StoredIn cfg processStarted s ops s' (s'.store.key q) (itemEntry (s'.store.mem q)).value := by
  induction hr with
  | nil s => exact ⟨h, UInt32.le_refl _, fun q hq => .inl ⟨hq, rfl, id⟩⟩
  | @cons s t s' op ops hs hr ih =>
    have hstep := hs.2.ages h hs.1
    obtain ⟨hinv, hnow, hitems⟩ := ih hstep.inv
    refine ⟨hinv, UInt32.le_trans hstep.now hnow, fun q hq => ?_⟩
    rcases hitems q hq with hc | ⟨as, op', bs, t₁, t₂, rfl, h1, h2, h3, h4, h5⟩
    · have hkey : s'.store.key q = t.store.key q := stored_field itemKey (fun _ => rfl) hc.stored
      rcases hstep.items q hc.linked with hc' | hw
      · exact .inl (hc'.trans hc)
      · right
        refine ⟨[], op, ops, s, t, rfl, .nil s, hs.2, hr.unguard, hkey ▸ hw, _,
          binding_eq hstep.inv.ok hc.linked hkey.symm, ?_⟩
        exact stored_field (fun i => (itemEntry i).value) (fun _ => rfl) hc.stored.symm
    · exact .inr ⟨op :: as, op', bs, t₁, t₂, rfl, .cons hs.2 h1, h2, h3, h4, h5⟩

/-- What a retrieval returns was live before it, and is left as it was. -/
theorem returned_live {op : ClientOp} {it : Ptr} (h : FlushInv cfg s)
    (hs : FlushStep cfg processStarted s op s') (hret : returned cfg s.store op = some it) :
    (s.store.mem it).linked = true ∧ flushedOrExpired s.store (s.store.mem it) = false ∧
      (s'.store.mem it).stored = (s.store.mem it).stored := by
  obtain ⟨hq, hs⟩ := hs
  have hupdate : ∀ (m : Store), ((doItemUpdate m it).mem it).stored = (m.mem it).stored := by
    intro m
    obtain ⟨t, hb, _⟩ := update_mem m it it
    unfold Item.stored
    rw [hb]
  cases hs with
  | get s held key =>
    change (getItem cfg s key).2 = some it at hret
    unfold getItem at hret
    unfold getItem
    rcases doItemGet_outcome h.ok hq with ⟨s₁, he, _⟩ | ⟨s₁, old, he, hg⟩
    · rw [he] at hret
      cases hret
    · rw [he] at hret ⊢
      cases hret
      exact ⟨(hg.linked it).symm.trans hg.stored, hg.live,
        (hupdate s₁).trans (stored_of_body (hg.body it))⟩
  | touch s held key exptime =>
    change (touchItem cfg s key exptime).2 = some it at hret
    unfold touchItem doItemTouch at hret
    unfold touchItem doItemTouch
    rcases doItemGet_outcome h.ok hq with ⟨s₁, he, _⟩ | ⟨s₁, old, he, hg⟩
    · rw [he] at hret
      cases hret
    · rw [he] at hret ⊢
      cases hret
      refine ⟨(hg.linked it).symm.trans hg.stored, hg.live, (hupdate _).trans ?_⟩
      rw [modify_mem_self]
      change (s₁.mem it).stored = _
      exact stored_of_body (hg.body it)
  | _ => cases hret

/-- Once a `flush_all` with no delay has executed, in every run whose commands set no flush
mark that is not in force at once, what a retrieval returns was stored after it. -/
theorem flushed_not_returned {n : Nat} {as bs : List ClientOp}
    {s s₁ s₂ s₃ : ItemsState} {exptime : Int} {op : ClientOp} {it : Ptr}
    (hr : Run (FlushStep cfg processStarted) (itemsInit n) as s) (hdelay : exptime ≤ 0)
    (hflush : ClientStep cfg processStarted s (.flushAll exptime) s₁)
    (hr₁ : Run (FlushStep cfg processStarted) s₁ bs s₂)
    (hget : FlushStep cfg processStarted s₂ op s₃) (hret : returned cfg s₂.store op = some it) :
    StoredIn cfg processStarted s₁ bs s₂ (s₃.store.key it) (itemEntry (s₃.store.mem it)).value := by
  obtain ⟨h, hlater, _⟩ := FlushStep.run_items (flushInv_init cfg n) hr
  have hmark : flushMark processStarted s.store exptime = s.store.currentTime - 1 := by
    unfold flushMark
    rw [if_neg (by omega)]
  have htwo : (2 : UInt32) ≤ s.store.currentTime := hlater
  have h0 : s.store.currentTime - 1 ≠ 0 := by
    intro he
    have hn := congrArg UInt32.toNat he
    rw [UInt32.toNat_sub_of_le _ _ (UInt32.le_trans (by decide) htwo)] at hn
    rw [UInt32.le_iff_toNat_le] at htwo
    simp only [UInt32.reduceToNat] at hn htwo
    omega
  have hle : s.store.currentTime - 1 ≤ s.store.currentTime := by
    rw [UInt32.le_iff_toNat_le, UInt32.toNat_sub_of_le _ _ (UInt32.le_trans (by decide) htwo)]
    exact Nat.sub_le _ _
  have hin : flushMark processStarted s.store exptime ≠ 0 ∧
      flushMark processStarted s.store exptime ≤ s.store.currentTime := by
    rw [hmark]
    exact ⟨h0, hle⟩
  have hcond : KeepsFlushed cfg processStarted s (.flushAll exptime) := fun _ => hin
  have h₁ : FlushInv cfg s₁ := (hflush.ages h hcond).inv
  obtain ⟨h₂, _, hitems⟩ := FlushStep.run_items h₁ hr₁
  obtain ⟨hlinked, hlive, hstored⟩ := returned_live h₂ hget hret
  have hkey : s₃.store.key it = s₂.store.key it := stored_field itemKey (fun _ => rfl) hstored
  have hvalue := stored_field (fun i => (itemEntry i).value) (fun _ => rfl) hstored
  rw [hkey, hvalue]
  refine (hitems it hlinked).resolve_left fun hc => ?_
  -- carried from before the flush, the item would still be hidden
  have hdead : flushedOrExpired s₁.store (s₁.store.mem it) = true := by
    have hl := hc.linked
    cases hflush with
    | flushAll s held exptime => exact flush_flushed h.ok h.order hin.1 hin.2 hl
  rw [hc.dead hdead] at hlive
  cases hlive

/-! ## A flush, a set and a read -/

@[irreducible]
def flushNow (s : ItemsState) (exptime : Int) : ItemsState :=
  ⟨flushAll oneClass 0 s.store exptime, s.held⟩

@[irreducible]
def uploadKey (s : ItemsState) : ItemsState :=
  let r := processUpdate oneClass fourChunks s.store .set [107] 0 0 3 0
  ⟨r.1, giveRef s.held r.2⟩

@[irreducible]
def storeKey (s : ItemsState) : ItemsState :=
  ⟨(completeNread oneClass noPage (uploadKey s).store 7096 .set [118, 13, 10]).1,
    dropRef (uploadKey s).held 7096⟩

@[irreducible]
def readKey (s : ItemsState) : ItemsState :=
  ⟨(getItem oneClass s.store [107]).1, giveRef s.held (getItem oneClass s.store [107]).2⟩

def setCommands : List ClientOp :=
  [.update fourChunks .set [107] 0 0 3 0, .complete noPage 7096 .set [118, 13, 10]]

theorem flushNow_step (s : ItemsState) (exptime : Int) :
    ClientStep oneClass 0 s (.flushAll exptime) (flushNow s exptime) := by
  unfold flushNow
  exact .flushAll s.store s.held exptime

theorem storeKey_run {s : ItemsState} (hp : FreshPage s.store fourChunks.newslab)
    (hr : tailRepairFires oneClass fourChunks 0 s.store 5
      (s.store.tails (allocClass oneClass [107] 0 3)) = false)
    (hh : 0 < (uploadKey s).held 7096) (hl : ((uploadKey s).store.mem 7096).linked = false) :
    Run (FlushStep oneClass 0) s setCommands (storeKey s) := by
  have h1 : ClientStep oneClass 0 s (.update fourChunks .set [107] 0 0 3 0) (uploadKey s) := by
    unfold uploadKey
    exact .update s.store s.held fourChunks .set [107] 0 0 3 0 (by decide)
  have h2 : ClientStep oneClass 0 (uploadKey s) (.complete noPage 7096 .set [118, 13, 10])
      (storeKey s) := by
    unfold storeKey
    exact .complete (uploadKey s).store (uploadKey s).held noPage 7096 .set [118, 13, 10] hh hl
  have q1 : KeepsFlushed oneClass 0 s (.update fourChunks .set [107] 0 0 3 0) :=
    ⟨fun _ => ⟨hp, hr⟩, nofun, fun _ _ _ => .inl rfl⟩
  have q2 : KeepsFlushed oneClass 0 (uploadKey s) (.complete noPage 7096 .set [118, 13, 10]) := by
    refine ⟨hh, ?_, .inl rfl, fun _ _ _ => .inl rfl, fun _ _ _ hm => hm.1.elim nofun nofun⟩
    rw [modify_field (·.linked) rfl]
    exact hl
  exact .cons ⟨q1, h1⟩ (.single ⟨q2, h2⟩)

theorem readKey_step (s : ItemsState) : FlushStep oneClass 0 s (.get [107]) (readKey s) := by
  unfold readKey
  exact ⟨fun _ _ _ => .inl rfl, .get s.store s.held [107]⟩

/-- A value set after the flush is returned. -/
theorem flushed_not_returned_set :
    returned oneClass (storeKey (flushNow (itemsInit 16) 0)).store (.get [107]) = some 7096 ∧
    StoredIn oneClass 0 (flushNow (itemsInit 16) 0) setCommands
      (storeKey (flushNow (itemsInit 16) 0)) [107] [118] := by
  have hret : returned oneClass (storeKey (flushNow (itemsInit 16) 0)).store (.get [107]) =
      some 7096 := by decide +kernel
  have hcarved : (flushNow (itemsInit 16) 0).store.carved = [] := by decide +kernel
  have hpage : FreshPage (flushNow (itemsInit 16) 0).store fourChunks.newslab := by
    simp [FreshPage, fourChunks, hcarved]
  have hrun := storeKey_run hpage (by decide +kernel) (by decide +kernel) (by decide +kernel)
  have h := flushed_not_returned (.nil (itemsInit 16)) (Int.le_refl 0)
    (flushNow_step _ 0) hrun (readKey_step _) hret
  have hkey : (readKey (storeKey (flushNow (itemsInit 16) 0))).store.key 7096 = [107] := by
    decide +kernel
  have hvalue : (itemEntry ((readKey (storeKey (flushNow (itemsInit 16) 0))).store.mem 7096)).value =
      [118] := by decide +kernel
  rw [hkey, hvalue] at h
  exact ⟨hret, h⟩

@[irreducible]
def storedLater : ItemsState :=
  ⟨{ (storeKey (itemsInit 16)).store with currentTime := 110 }, (storeKey (itemsInit 16)).held⟩

/-- A `flush_all` with a delay after the flush makes the value stored before it come back. -/
theorem delayed_flush_reveals :
    (∃ as, Run (ClientStep oneClass 0) (itemsInit 16) as storedLater) ∧
    ClientStep oneClass 0 storedLater (.flushAll 0) (flushNow storedLater 0) ∧
    Run (ClientStep oneClass 0) (flushNow storedLater 0) [.flushAll 100]
      (flushNow (flushNow storedLater 0) 100) ∧
    returned oneClass (flushNow (flushNow storedLater 0) 100).store (.get [107]) = some 7096 ∧
    ¬StoredIn oneClass 0 (flushNow storedLater 0) [.flushAll 100]
      (flushNow (flushNow storedLater 0) 100) [107] [118] := by
  have hpage : FreshPage (itemsInit 16).store fourChunks.newslab := by
    simp [FreshPage, fourChunks, itemsInit, storeInit]
  have hrun := storeKey_run hpage (by decide +kernel) (by decide +kernel) (by decide +kernel)
  have htick : ClientStep oneClass 0 (storeKey (itemsInit 16)) (.tick 110) storedLater := by
    unfold storedLater
    exact .tick _ _ 110 (by decide +kernel)
  refine ⟨⟨_, hrun.unguard.append (.single htick)⟩, flushNow_step _ 0,
    .single (flushNow_step _ 100), by decide +kernel, ?_⟩
  rintro ⟨as, op, bs, t, t', he, _, _, _, hs, _⟩
  have hop : op ∈ [ClientOp.flushAll 100] := by simp [he]
  rw [List.mem_singleton.mp hop] at hs
  exact hs

/-! ## What a flush unlinks -/

theorem FlushInv.run {ops : List ItemsOp} (h : FlushInv cfg s) (hr : Run (Guarded Forward (ItemsStep cfg)) s ops s') :
    FlushInv cfg s' ∧ s.store.currentTime ≤ s'.store.currentTime := by
  induction hr with
  | nil => exact ⟨h, UInt32.le_refl _⟩
  | cons hs _ ih =>
    obtain ⟨h', hle⟩ := ih (h.step hs.2 hs.1)
    exact ⟨h', UInt32.le_trans (hs.2.now_le h.ok hs.1) hle⟩

/-- After a flush at once `do_item_get` returns nothing. -/
theorem FlushInv.flushAll_get (h : FlushInv cfg s) (htwo : 2 ≤ s.store.currentTime) {exptime : Int} (hdelay : exptime ≤ 0)
    (key : Bytes) :
    (doItemGet cfg (flushAll cfg processStarted s.store exptime) key (cfg.hash key)).2 = none := by
  have hmark : flushMark processStarted s.store exptime = s.store.currentTime - 1 := if_neg (by omega)
  have hone : (s.store.currentTime - 1).toNat = s.store.currentTime.toNat - 1 :=
    UInt32.toNat_sub_of_le _ _ (UInt32.le_trans (by decide) htwo)
  have h0 : s.store.currentTime - 1 ≠ 0 := by
    intro he
    rw [he, UInt32.toNat_zero] at hone
    have hnat : 2 ≤ s.store.currentTime.toNat := by simpa [UInt32.le_iff_toNat_le] using htwo
    omega
  -- the mark is set, then the queues are walked
  have hclock : FlushInv cfg ⟨{ s.store with oldestLive := s.store.currentTime - 1 }, s.held⟩ :=
    h.step (.clock s.store s.held s.store.currentTime (s.store.currentTime - 1) s.store.slabRebal) (UInt32.le_refl _)
  unfold flushAll
  rw [hmark]
  generalize hs : ({ s.store with oldestLive := s.store.currentTime - 1 } : Store) = m at hclock
  have hnow : m.currentTime = s.store.currentTime ∧ m.oldestLive = s.store.currentTime - 1 := by
    rw [← hs]
    exact ⟨rfl, rfl⟩
  obtain hget | ⟨_, _, hget, _⟩ | ⟨it, s', hget, hl, _, _, hlive, _⟩ := doItemGet_cases hclock.ok.flush key
  · rw [hget.1]
  · rw [hget]
  · obtain ⟨hb, _, henv, _⟩ := flush_mem cfg m it
    have hold := hclock.ok.flush_older hclock.order (by rw [hnow.2]; exact h0) hl
    rw [flushedOrExpired, show (doItemFlushExpired cfg m).oldestLive = m.oldestLive from congrArg (·.2.1) henv,
      show (doItemFlushExpired cfg m).currentTime = m.currentTime from congrArg (·.1) henv, hnow.1, hnow.2,
      Bool.or_eq_false_iff] at hlive
    rw [hnow.2] at hold
    have hle : s.store.currentTime - 1 ≤ s.store.currentTime := by
      rw [UInt32.le_iff_toNat_le, hone]
      exact Nat.sub_le _ _
    have hdead := hlive.1
    simp [h0, hle, UInt32.le_of_lt hold] at hdead

/-- While the clock does not run backwards, every queue is in the order of the times of its
items; `do_item_flush_expired` unlinks the items that are not older than the mark, or
nothing when there is no mark; and after a `flush_all` with no delay nothing is found. -/
theorem flush_unlinks {n : Nat} {ops : List ItemsOp} (hr : Run (Guarded Forward (ItemsStep cfg)) (itemsInit n) ops s) :
    (∃ lru, LruOk s.store.mem s.store.heads s.store.tails s.store.sizes lru ∧
      ∀ c, (lru c).Pairwise fun p q => (s.store.mem q).time ≤ (s.store.mem p).time) ∧
    (∀ p, ((doItemFlushExpired cfg s.store).mem p).linked = true ↔
      (s.store.mem p).linked = true ∧ (s.store.oldestLive = 0 ∨ (s.store.mem p).time < s.store.oldestLive)) ∧
    ∀ processStarted exptime key, exptime ≤ 0 →
      (doItemGet cfg (flushAll cfg processStarted s.store exptime) key (cfg.hash key)).2 = none := by
  obtain ⟨h, htwo⟩ := (flushInv_init cfg n).run hr
  refine ⟨?_, fun p => ?_, fun processStarted exptime key hdelay => h.flushAll_get htwo hdelay key⟩
  · obtain ⟨live, lru, hok⟩ := h.ok
    exact ⟨lru, hok.queues, h.order.sorted lru hok.queues⟩
  · by_cases h0 : s.store.oldestLive = 0
    · rw [doItemFlushExpired, if_pos h0]
      simp [h0]
    · rw [h.ok.flush_linked_iff h.order h0]
      simp [h0]

/-- An item stored before any `flush_all`. -/
def oneItem : ItemsState :=
  ⟨doItemLink oneClass (doItemAlloc oneClass ⟨fun _ => true, some [4096]⟩ (storeInit 16) [107] 0 0 3 0).1 4096 0,
    giveRef (fun _ => 0) (some 4096)⟩

theorem oneItem_run : Run (Guarded Forward (ItemsStep oneClass)) (itemsInit 16)
    [.alloc ⟨fun _ => true, some [4096]⟩ [107] 0 0 3 0, .link 4096] oneItem := by
  have h1 : ItemsStep oneClass (itemsInit 16) (.alloc ⟨fun _ => true, some [4096]⟩ [107] 0 0 3 0) _ :=
    .alloc (storeInit 16) _ ⟨fun _ => true, some [4096]⟩ [107] 0 0 3 0 (by decide) (by simp [FreshPage, storeInit]) rfl
  exact .cons ⟨trivial, h1⟩ (.single ⟨trivial, .link _ _ 4096 (by decide) rfl rfl (.inl rfl)⟩)

theorem flush_unlinks_one : (∃ lru, LruOk oneItem.store.mem oneItem.store.heads oneItem.store.tails oneItem.store.sizes lru ∧
      ∀ c, (lru c).Pairwise fun p q => (oneItem.store.mem q).time ≤ (oneItem.store.mem p).time) ∧
    (∀ p, ((doItemFlushExpired oneClass oneItem.store).mem p).linked = true ↔ (oneItem.store.mem p).linked = true ∧
      (oneItem.store.oldestLive = 0 ∨ (oneItem.store.mem p).time < oneItem.store.oldestLive)) ∧
    ∀ processStarted exptime key, exptime ≤ 0 →
      (doItemGet oneClass (flushAll oneClass processStarted oneItem.store exptime) key (oneClass.hash key)).2 = none :=
  flush_unlinks oneItem_run

/-- Without a mark `do_item_flush_expired` returns at once, whatever the times of the items. -/
theorem no_mark_no_flush : ∃ ops s p, Run (Guarded Forward (ItemsStep oneClass)) (itemsInit 16) ops s ∧
    (s.store.mem p).linked = true ∧ s.store.oldestLive ≤ (s.store.mem p).time ∧
    ((doItemFlushExpired oneClass s.store).mem p).linked = true :=
  ⟨_, oneItem, 4096, oneItem_run, rfl, UInt32.zero_le, rfl⟩

end RamCube
