import RamCube.Store.StoreCommand

/-! # Clients, one command at a time

Any number of clients send commands in any order; a storage command starts when its
line is read and ends when its data is there, with other commands in between. As
long as no flush makes a flushed item live again, a stored `cas` means that the key
was bound to the value the client read from then on. -/
namespace RamCube

variable {cfg : Settings} {processStarted : Int} {s s' t : Store} {held : Ptr → Nat} {key : Bytes}

inductive ClientOp where
  | get (key : Bytes)
  | touch (key : Bytes) (exptime : UInt32)
  | delete (key : Bytes) (cas : UInt64)
  | delta (env : AllocEnv) (key : Bytes) (incr : Bool) (delta cas : UInt64)
  | update (env : AllocEnv) (comm : NRead) (key : Bytes) (flags : Int) (exptime : UInt32)
      (vlen : Int) (reqCas : UInt64)
  | complete (env : AllocEnv) (it : Ptr) (comm : NRead) (data : Bytes)
  | release (it : Ptr)
  | flushAll (exptime : Int)
  | tick (now : UInt32)
  | expand (callocOk : Bool)
  | migrate

inductive ClientStep (cfg : Settings) (processStarted : Int) :
    ItemsState → ClientOp → ItemsState → Prop where
  | get (s : Store) (held : Ptr → Nat) (key : Bytes) :
      ClientStep cfg processStarted ⟨s, held⟩ (.get key)
        ⟨(getItem cfg s key).1, giveRef held (getItem cfg s key).2⟩
  | touch (s : Store) (held : Ptr → Nat) (key : Bytes) (exptime : UInt32) :
      ClientStep cfg processStarted ⟨s, held⟩ (.touch key exptime)
        ⟨(touchItem cfg s key exptime).1, giveRef held (touchItem cfg s key exptime).2⟩
  | delete (s : Store) (held : Ptr → Nat) (key : Bytes) (cas : UInt64) :
      ClientStep cfg processStarted ⟨s, held⟩ (.delete key cas) ⟨(deleteItem cfg s key cas).1, held⟩
  | delta (s : Store) (held : Ptr → Nat) (env : AllocEnv) (key : Bytes) (incr : Bool)
      (delta cas : UInt64) :
      ClientStep cfg processStarted ⟨s, held⟩ (.delta env key incr delta cas)
        ⟨(doAddDelta cfg env s key incr delta cas (cfg.hash key)).1, held⟩
  | update (s : Store) (held : Ptr → Nat) (env : AllocEnv) (comm : NRead) (key : Bytes)
      (flags : Int) (exptime : UInt32) (vlen : Int) (reqCas : UInt64) : 2 ≤ vlen →
      ClientStep cfg processStarted ⟨s, held⟩ (.update env comm key flags exptime vlen reqCas)
        ⟨(processUpdate cfg env s comm key flags exptime vlen.toNat reqCas).1,
          giveRef held (processUpdate cfg env s comm key flags exptime vlen.toNat reqCas).2⟩
  | shortNone (s : Store) (held : Ptr → Nat) (env : AllocEnv) (comm : NRead) (key : Bytes)
      (flags : Int) (exptime : UInt32) (vlen : Int) (reqCas : UInt64) {t : Store} : vlen < 2 →
      ItemsCall cfg ⟨s, held⟩ (.alloc env key flags exptime vlen 0) ⟨t, held⟩ →
      ClientStep cfg processStarted ⟨s, held⟩ (.update env comm key flags exptime vlen reqCas)
        ⟨failedUpdate cfg t comm key, held⟩
  | shortSome (s : Store) (held : Ptr → Nat) (env : AllocEnv) (comm : NRead) (key : Bytes)
      (flags : Int) (exptime : UInt32) (vlen : Int) (reqCas : UInt64) {t : Store} {it : Ptr} : vlen < 2 →
      ItemsCall cfg ⟨s, held⟩ (.alloc env key flags exptime vlen 0) ⟨t, addRef held it⟩ →
      ClientStep cfg processStarted ⟨s, held⟩ (.update env comm key flags exptime vlen reqCas)
        ⟨t.modify it fun i => itemSetCas i reqCas, addRef held it⟩
  | complete (s : Store) (held : Ptr → Nat) (env : AllocEnv) (it : Ptr) (comm : NRead)
      (data : Bytes) : 0 < held it → (s.mem it).linked = false →
      ClientStep cfg processStarted ⟨s, held⟩ (.complete env it comm data)
        ⟨(completeNread cfg env s it comm data).1, dropRef held it⟩
  | release (s : Store) (held : Ptr → Nat) (it : Ptr) : 0 < held it →
      ClientStep cfg processStarted ⟨s, held⟩ (.release it) ⟨doItemRemove cfg s it, dropRef held it⟩
  | flushAll (s : Store) (held : Ptr → Nat) (exptime : Int) :
      ClientStep cfg processStarted ⟨s, held⟩ (.flushAll exptime)
        ⟨RamCube.flushAll cfg processStarted s exptime, held⟩
  | tick (s : Store) (held : Ptr → Nat) (now : UInt32) : s.currentTime ≤ now →
      ClientStep cfg processStarted ⟨s, held⟩ (.tick now) ⟨{ s with currentTime := now }, held⟩
  | expand (s : Store) (held : Ptr → Nat) (callocOk : Bool) : s.assoc.expanding = false →
      (callocOk = true → s.assoc.hashpower ≤ 30) →
      ClientStep cfg processStarted ⟨s, held⟩ (.expand callocOk)
        ⟨{ s with assoc := assocExpand s.assoc callocOk }, held⟩
  | migrate (s : Store) (held : Ptr → Nat) : s.assoc.expanding = true →
      ClientStep cfg processStarted ⟨s, held⟩ .migrate
        ⟨{ s with assoc := migrateBucket cfg.hash s.key s.assoc }, held⟩

/-- Is there an item that only the flush keeps from its readers? -/
def Flushed (s : Store) : Prop :=
  ∃ p, (s.mem p).linked = true ∧ flushed s (s.mem p) = true ∧ expired s (s.mem p) = false

/-- The condition on a command: no count is full and no tail repair happens; a length below 2
is refused; the last `cas` unique is not used up; and while there are flushed items, a new
flush mark is in force at once. -/
def Careful (cfg : Settings) (processStarted : Int) (s : ItemsState) : ClientOp → Prop
  | .get key | .touch key _ | .delete key _ => RoomAt cfg s.store key
  | .delta env key incr delta _ => DeltaGuard cfg env s.store key incr delta ∧ LinksLeft s.store
  | .update env _ key flags _ vlen _ => UpdateGuard cfg env s.store key flags vlen
  | .complete env it comm data =>
    StoreGuard cfg env (s.store.modify it (writeData 0 data)) s.held it comm ∧ LinksLeft s.store
  | .flushAll exptime => Flushed s.store → flushMark processStarted s.store exptime ≠ 0 ∧
      flushMark processStarted s.store exptime ≤ s.store.currentTime
  | _ => True

/-! ## What a command does to the items stored before it -/

/-- The items of `s'` with a `cas` unique given before `s` are items of `s` with the same
contents, and those that were dead in `s` still are. -/
structure Since (s s' : Store) : Prop where
  casId : s.casId.toNat ≤ s'.casId.toNat
  stored : ∀ q, (s'.mem q).linked = true → (itemGetCas (s'.mem q)).toNat ≤ s.casId.toNat →
    (s.mem q).linked = true ∧ (s'.mem q).stored = (s.mem q).stored
  dead : ∀ q, (s'.mem q).linked = true → (itemGetCas (s'.mem q)).toNat ≤ s.casId.toNat →
    flushedOrExpired s (s.mem q) = true → flushedOrExpired s' (s'.mem q) = true

theorem Since.trans (h : Since s t) (h' : Since t s') : Since s s' where
  casId := h.casId.trans h'.casId
  stored := fun q hl hc => by
    obtain ⟨hl', hs'⟩ := h'.stored q hl (hc.trans h.casId)
    obtain ⟨hl'', hs''⟩ := h.stored q hl' (by rwa [← itemGetCas_stored hs'])
    exact ⟨hl'', hs'.trans hs''⟩
  dead := fun q hl hc hd => by
    obtain ⟨hl', hs'⟩ := h'.stored q hl (hc.trans h.casId)
    have hc' : (itemGetCas (t.mem q)).toNat ≤ s.casId.toNat := by rwa [← itemGetCas_stored hs']
    exact h'.dead q hl (hc.trans h.casId) (h.dead q hl' hc' hd)

/-- A change of no item. -/
theorem Since.of_mem (hm : s'.mem = s.mem) (hc : s'.casId = s.casId)
    (hd : ∀ q, (s.mem q).linked = true → flushedOrExpired s (s.mem q) = true →
      flushedOrExpired s' (s.mem q) = true) : Since s s' := by
  refine ⟨by rw [hc], fun q hl _ => ?_, fun q hl _ hdq => ?_⟩
  · rw [hm] at hl ⊢
    exact ⟨hl, rfl⟩
  · rw [hm] at hl ⊢
    exact hd q hl hdq

theorem ne_succ (c : UInt64) : c ≠ c + 1 := by
  intro h
  have hn := congrArg UInt64.toNat h
  have hlt := c.toNat_lt
  rw [UInt64.toNat_add] at hn
  simp only [UInt64.reduceToNat] at hn
  omega

/-- A dead item that a quiet step keeps is dead after it. -/
theorem Kept.dead {q : Ptr} {quiet : Prop} (hk : Kept s s' quiet q) (hq : quiet)
    (hnow : s'.currentTime = s.currentTime) (hmark : s'.oldestLive = s.oldestLive)
    (hd : flushedOrExpired s (s.mem q) = true) : flushedOrExpired s' (s'.mem q) = true := by
  rcases hk.times hq with ⟨ht, he⟩ | ⟨hf, he⟩
  · unfold flushedOrExpired at hd ⊢
    rw [hnow, hmark, ht, he]
    exact hd
  · rw [flushedOrExpired_eq, hf, Bool.false_or] at hd
    have hexp := he.resolve_right (by rw [hd]; simp)
    rw [flushedOrExpired_eq, Bool.or_eq_true]
    right
    unfold expired at hd ⊢
    rw [hexp, hnow]
    exact hd

/-- A quiet step. -/
theorem Since.of_quiet (hc : cfg.useCas = true) {s s' : ItemsState} {op : ItemsOp}
    (h : StoreInv cfg s) (hq : Quiet s op) (hleft : Links op → LinksLeft s.store)
    (hs : ItemsStep cfg s op s') : Since s.store s'.store := by
  obtain ⟨hnow, hmark, _⟩ := (hs.env h.ok).2 hq.timeless
  have hle := (hs.keeps_wf hc h.ok h.wf hleft).2
  have hkept : ∀ q, (s'.store.mem q).linked = true →
      (itemGetCas (s'.store.mem q)).toNat ≤ s.store.casId.toNat →
      Kept s.store s'.store (Quiet s op) q := by
    intro q hl hcas
    refine (hs.kept h.ok h.wf.items q hl).resolve_right fun ⟨_, hj⟩ => ?_
    have hid := hj.casId
    rw [if_pos hc] at hid
    have hlinks := ((hs.env h.ok).1.resolve_left fun he => by
      rw [he] at hid
      exact ne_succ s.store.casId hid).1
    rw [hj.cas, linkCas_eq hc, toNat_succ_of_left (hleft hlinks)] at hcas
    omega
  exact ⟨hle, fun q hl hcas => ⟨(hkept q hl hcas).linked, (hkept q hl hcas).stored⟩,
    fun q hl hcas hd => (hkept q hl hcas).dead hq hnow hmark hd⟩

/-- The guard of a command's item operations: a link finds a `cas` unique left. -/
abbrev CasLeft (c : UInt64) : Prop := c.toNat + 1 < 2 ^ 64

theorem Quiet.forward {s : ItemsState} {op : ItemsOp} (hq : Quiet s op) : Forward s op := by
  cases op with
  | clock => exact hq.elim
  | _ => trivial

theorem sane_of_quiet {s : ItemsState} {op : ItemsOp} (hq : Quiet s op)
    (hl : ∀ q, LinksItem op q → CasLeft s.store.casId) : Sane s op := by
  refine ⟨hq.forward, fun h => ?_⟩
  obtain ⟨q, hop⟩ := h.item
  exact hl q hop

/-- One step of the client machine: the invariant holds after it, and what it did to the
items stored before. -/
structure StepKeeps (cfg : Settings) (s s' : ItemsState) : Prop where
  inv : StoreInv cfg s'
  since : Since s.store s'.store

theorem StepKeeps.trans {s₁ s₂ s₃ : ItemsState} (h : StepKeeps cfg s₁ s₂)
    (h' : StepKeeps cfg s₂ s₃) : StepKeeps cfg s₁ s₃ :=
  ⟨h'.inv, h.since.trans h'.since⟩

/-- A command that is a run of item operations. -/
theorem StepKeeps.of_run (hc : cfg.useCas = true) {s s' : ItemsState} (h : StoreInv cfg s)
    (hr : ∃ ops, Run (QuietStep cfg fun _ => CasLeft) s ops s') : StepKeeps cfg s s' := by
  obtain ⟨ops, hr⟩ := hr
  induction hr with
  | nil s => exact ⟨h, .of_mem rfl rfl fun _ _ hd => hd⟩
  | cons hs _ ih =>
    have hsane := sane_of_quiet hs.1.1 hs.1.2
    have hstep := Since.of_quiet hc h hs.1.1 hsane.2 hs.2
    have hinv := (h.step hc hsane hs.2).1
    exact StepKeeps.trans ⟨hinv, hstep⟩ (ih hinv)

theorem StoreInv.plain_step (hc : cfg.useCas = true) {s s' : ItemsState} {op : ItemsOp}
    (h : StoreInv cfg s) (hs : ItemsStep cfg s op s') (hf : Forward s op) (hl : ¬Links op) :
    StoreInv cfg s' :=
  (h.step hc ⟨hf, fun hop => absurd hop hl⟩ hs).1

/-- Time passing brings nothing back to life. -/
theorem dead_tick {now : UInt32} (hle : s.currentTime ≤ now) (i : Item)
    (hd : flushedOrExpired s i = true) : flushedOrExpired { s with currentTime := now } i = true := by
  simp only [flushedOrExpired, Bool.or_eq_true, Bool.and_eq_true, decide_eq_true_eq] at hd ⊢
  rcases hd with ⟨⟨h1, h2⟩, h3⟩ | ⟨h1, h2⟩
  · exact .inl ⟨⟨h1, UInt32.le_trans h2 hle⟩, h3⟩
  · exact .inr ⟨h1, UInt32.le_trans h2 hle⟩

theorem Since.tick {now : UInt32} (hle : s.currentTime ≤ now) :
    Since s { s with currentTime := now } :=
  .of_mem rfl rfl fun q _ hd => dead_tick hle (s.mem q) hd

/-- After a flush under a mark in force every item left is flushed: the others are
unlinked, for the queues are sorted. -/
theorem flush_flushed {exptime : Int} (h : StoreOk cfg s held) (ho : OrderOk s)
    (h0 : flushMark processStarted s exptime ≠ 0)
    (hle : flushMark processStarted s exptime ≤ s.currentTime) {q : Ptr}
    (hl : ((flushAll cfg processStarted s exptime).mem q).linked = true) :
    flushedOrExpired (flushAll cfg processStarted s exptime)
      ((flushAll cfg processStarted s exptime).mem q) = true := by
  unfold flushAll at hl ⊢
  generalize flushMark processStarted s exptime = mark at *
  have h' : StoreOk cfg { s with oldestLive := mark } held := h.clock _ _ _
  have ho' : OrderOk { s with oldestLive := mark } := ⟨ho.past, ho.sorted⟩
  have hmem := flush_mem cfg { s with oldestLive := mark } q
  have hold := h'.flush_older ho' h0 hl
  rw [time_of_body hmem.1] at hold
  rw [flushedOrExpired_congr hmem.2.2.1 hmem.1, flushedOrExpired_eq, Bool.or_eq_true]
  left
  simp only [flushed, Bool.and_eq_true, decide_eq_true_eq, bne_iff_ne]
  exact ⟨⟨h0, hle⟩, UInt32.le_of_lt hold⟩

/-- A flush brings nothing back to life if its mark is in force, or nothing was flushed. -/
theorem dead_flush {exptime : Int} (h : StoreOk cfg s held) (ho : OrderOk s)
    (hq : Flushed s → flushMark processStarted s exptime ≠ 0 ∧
      flushMark processStarted s exptime ≤ s.currentTime) {q : Ptr}
    (hl : ((flushAll cfg processStarted s exptime).mem q).linked = true)
    (hd : flushedOrExpired s (s.mem q) = true) :
    flushedOrExpired (flushAll cfg processStarted s exptime)
      ((flushAll cfg processStarted s exptime).mem q) = true := by
  have hmem := flush_mem cfg { s with oldestLive := flushMark processStarted s exptime } q
  by_cases hexp : expired s (s.mem q) = true
  · unfold flushAll
    rw [flushedOrExpired_congr hmem.2.2.1 hmem.1, flushedOrExpired_eq, Bool.or_eq_true]
    exact .inr hexp
  · have hexp' : expired s (s.mem q) = false := by simpa using hexp
    rw [flushedOrExpired_eq, hexp', Bool.or_false] at hd
    obtain ⟨h0, hle⟩ := hq ⟨q, hmem.2.1 hl, hd, hexp'⟩
    exact flush_flushed h ho h0 hle hl

theorem Since.flush {exptime : Int} (h : StoreOk cfg s held) (ho : OrderOk s)
    (hq : Flushed s → flushMark processStarted s exptime ≠ 0 ∧
      flushMark processStarted s exptime ≤ s.currentTime) :
    Since s (flushAll cfg processStarted s exptime) := by
  have hmem := fun q => flush_mem cfg { s with oldestLive := flushMark processStarted s exptime } q
  have henv := (hmem 0).2.2.1
  exact ⟨le_of_eq (congrArg (·.2.2.2.toNat) henv).symm,
    fun q hl _ => ⟨(hmem q).2.1 hl, stored_of_body (hmem q).1⟩,
    fun q hl _ hd => dead_flush h ho hq hl hd⟩

/-- Every careful step keeps the invariant, and brings nothing dead back to life. -/
theorem ClientStep.keeps (hc : cfg.useCas = true) {s s' : ItemsState} {op : ClientOp}
    (h : StoreInv cfg s) (hq : Careful cfg processStarted s op)
    (hs : ClientStep cfg processStarted s op s') : StepKeeps cfg s s' := by
  cases hs with
  | get s held key => exact .of_run hc h (getItem_run h.ok hq)
  | touch s held key exptime => exact .of_run hc h (touchItem_run h.ok exptime hq)
  | delete s held key cas => exact .of_run hc h (deleteItem_run h.ok cas hq)
  | delta s held env key incr delta cas => exact .of_run hc h (doAddDelta_run h.ok cas hq.1 fun _ => hq.2)
  | update s held env comm key flags exptime vlen reqCas hn =>
    exact .of_run hc h (processUpdate_run h.ok reqCas (by omega) (hq.alloc hn) hq.room)
  | shortNone s held env comm key flags exptime vlen reqCas hn hcall =>
    obtain rfl := hq.refused hn hcall
    exact .of_run hc h (failedUpdate_run h.ok comm hq.room)
  | shortSome s held env comm key flags exptime vlen reqCas hn hcall => exact absurd hcall (hq.not_taken hn)
  | complete s held env it comm data hh hl =>
    exact .of_run hc h (completeNread_run h.ok h.wf.items hq.1 fun _ => hq.2)
  | release s held it hh => exact .of_run hc h (run_step (remove_step hh))
  | flushAll s held exptime =>
    have hmark := h.plain_step hc (.clock s held s.currentTime
      (flushMark processStarted s exptime) s.slabRebal) (UInt32.le_refl _) id
    exact ⟨hmark.plain_step hc (.flushExpired _ held) trivial id, Since.flush h.ok h.order hq⟩
  | tick s held now hle =>
    exact ⟨h.plain_step hc (.clock s held now s.oldestLive s.slabRebal) hle id, Since.tick hle⟩
  | expand s held ok he hp =>
    exact ⟨h.plain_step hc (.expand s held ok he hp) trivial id, .of_mem rfl rfl fun _ _ hd => hd⟩
  | migrate s held he =>
    exact ⟨h.plain_step hc (.migrate s held he) trivial id, .of_mem rfl rfl fun _ _ hd => hd⟩

theorem ClientStep.run_keeps (hc : cfg.useCas = true) {s s' : ItemsState} {ops : List ClientOp}
    (h : StoreInv cfg s)
    (hr : Run (Guarded (Careful cfg processStarted) (ClientStep cfg processStarted)) s ops s') :
    StepKeeps cfg s s' := by
  induction hr with
  | nil s => exact ⟨h, .of_mem rfl rfl fun _ _ hd => hd⟩
  | cons hs _ ih =>
    have hstep := hs.2.keeps hc h hs.1
    exact hstep.trans (ih hstep.inv)

/-! ## Reading and storing -/

/-- What a retrieval returns is what `lookup` says. -/
theorem getItem_reads (h : StoreOk cfg s held) (hr : RoomAt cfg s key) {it : Ptr}
    (hg : (getItem cfg s key).2 = some it) :
    lookup cfg s key = some (itemEntry ((getItem cfg s key).1.mem it)) := by
  unfold getItem at hg ⊢
  rcases doItemGet_outcome h hr with ⟨s', he, _⟩ | ⟨s', old, he, hgot⟩
  · rw [he] at hg
    cases hg
  · rw [he] at hg ⊢
    cases hg
    obtain ⟨t, hb, _⟩ := update_mem s' it it
    rw [hgot.lookup_old h]
    change some (itemEntry (s'.mem it)) = some (itemEntry ((doItemUpdate s' it).mem it).body)
    rw [hb]
    rfl

/-- A `cas` that is stored found a live item with the client's unique under its key. -/
theorem completeNread_cas_stored (h : StoreInv cfg ⟨s, held⟩) {env : AllocEnv} {it : Ptr}
    {data : Bytes} (hq : Careful cfg processStarted ⟨s, held⟩ (.complete env it .cas data))
    (hres : (completeNread cfg env s it .cas data).2.1 = .STORED) :
    ∃ e, lookup cfg s (s.key it) = some e ∧ e.cas = itemGetCas (s.mem it) := by
  obtain ⟨g, _⟩ := hq
  have hl : (s.mem it).linked = false := by
    have hu := g.unlinked
    rwa [modify_mem_self] at hu
  have hwb := writeData_bytes 0 data (s.mem it)
  obtain ⟨op, hw⟩ : ∃ op, QuietStep cfg (fun _ => CasLeft) ⟨s, held⟩ op _ := write_step g.held hl hwb
  have hok : StoreOk cfg (s.modify it (writeData 0 data)) held := hw.2.keeps h.ok
  have hkey : (s.modify it (writeData 0 data)).key it = s.key it := by
    obtain ⟨bytes, he, hb⟩ := hwb
    unfold Store.key
    rw [modify_mem_self, he, itemKey_write hb]
  have hbody : ∀ p, ((s.modify it (writeData 0 data)).mem p).linked = true → p ≠ it := by
    intro p hp hpi
    rw [modify_field (·.linked) rfl, hpi, hl] at hp
    cases hp
  unfold completeNread at hres
  dsimp only at hres
  rcases doItemGet_outcome hok g.roomAt with ⟨s', he, _⟩ | ⟨s', old, he, hg⟩
  · unfold doStoreItem at hres
    rw [he] at hres
    cases hres
  · have hold := (hg.linked old).symm.trans hg.stored
    have hne := hbody old hold
    unfold doStoreItem at hres
    rw [he] at hres
    dsimp only at hres
    by_cases hcas : itemGetCas (s'.mem it) = itemGetCas (s'.mem old)
    · refine ⟨itemEntry (s.mem old), (lookup_some h.ok).mpr ⟨old, ?_, ?_, ?_, rfl⟩, ?_⟩
      · rwa [modify_mem_of_ne hne] at hold
      · have hk := key_of_body (hg.body old)
        rw [modify_mem_of_ne hne] at hk
        exact hk.symm.trans (hg.key.trans hkey)
      · have hlive := hg.live
        rwa [modify_mem_of_ne hne] at hlive
      · have h1 := itemGetCas_of_body (hg.body old)
        have h2 := itemGetCas_of_body (hg.body it)
        rw [modify_mem_of_ne hne] at h1
        rw [modify_mem_self] at h2
        exact h1.symm.trans (hcas.symm.trans h2)
    · rw [if_neg hcas] at hres
      cases hres

/-- In every run whose commands are careful: if a client read the entry `e` of a key, and
later a `cas` on that key with the unique of `e` is stored, the key was bound to the value
of `e` at every moment in between. -/
theorem cas_stored_unchanged (hc : cfg.useCas = true) {n : Nat} {as bs cs : List ClientOp}
    {s₁ t s₂ s₃ : ItemsState} {e : Entry} {env : AllocEnv} {it : Ptr} {data : Bytes}
    (hr : Run (Guarded (Careful cfg processStarted) (ClientStep cfg processStarted)) (itemsInit n)
      as s₁) (hread : lookup cfg s₁.store key = some e)
    (hr₁ : Run (Guarded (Careful cfg processStarted) (ClientStep cfg processStarted)) s₁ bs t)
    (hr₂ : Run (Guarded (Careful cfg processStarted) (ClientStep cfg processStarted)) t cs s₂)
    (hcas : Guarded (Careful cfg processStarted) (ClientStep cfg processStarted) s₂
      (.complete env it .cas data) s₃)
    (hkey : s₂.store.key it = key) (hunique : itemGetCas (s₂.store.mem it) = e.cas)
    (hres : (completeNread cfg env s₂.store it .cas data).2.1 = .STORED) :
    ∃ e', lookup cfg t.store key = some e' ∧ e'.value = e.value := by
  have h₁ := (ClientStep.run_keeps hc (storeInv_init cfg n) hr).inv
  have ht := ClientStep.run_keeps hc h₁ hr₁
  have h₂ := ClientStep.run_keeps hc ht.inv hr₂
  obtain ⟨e₂, hl₂, hcas₂⟩ := completeNread_cas_stored h₂.inv hcas.1 hres
  rw [hkey] at hl₂
  obtain ⟨q, hq, hqk, hqd, hqe⟩ := (lookup_some h₂.inv.ok).mp hl₂
  obtain ⟨p, hp, _, _, hpe⟩ := (lookup_some h₁.ok).mp hread
  -- the unique of the item was given before the read, so the item was there from then on
  have hold : (itemGetCas (s₂.store.mem q)).toNat ≤ s₁.store.casId.toNat := by
    have hqc : itemGetCas (s₂.store.mem q) = e.cas := by
      rw [show itemGetCas (s₂.store.mem q) = e₂.cas from congrArg Entry.cas hqe, hcas₂, hunique]
    rw [hqc, ← congrArg Entry.cas hpe]
    exact h₁.wf.cas p hp
  obtain ⟨htl, hts⟩ := h₂.since.stored q hq (hold.trans ht.since.casId)
  have hold' : (itemGetCas (t.store.mem q)).toNat ≤ s₁.store.casId.toNat := by
    rwa [← itemGetCas_stored hts]
  obtain ⟨h1l, h1s⟩ := ht.since.stored q htl hold'
  have hkeyt : t.store.key q = key := (stored_field itemKey (fun _ => rfl) hts).symm.trans hqk
  have hkey1 : s₁.store.key q = key := (stored_field itemKey (fun _ => rfl) h1s).symm.trans hkeyt
  have hlive : flushedOrExpired t.store (t.store.mem q) = false := by
    by_contra hd
    have hdead := h₂.since.dead q hq (hold.trans ht.since.casId) (by simpa using hd)
    rw [hqd] at hdead
    cases hdead
  have hpq : p = q := h₁.ok.key_inj hp h1l (by rw [hkey1]; assumption)
  refine ⟨itemEntry (t.store.mem q), (lookup_some ht.inv.ok).mpr ⟨q, htl, hkeyt, hlive, rfl⟩, ?_⟩
  rw [← hpe, hpq]
  exact stored_field (fun i => (itemEntry i).value) (fun _ => rfl) h1s

/-! ## A set, a read and a `cas` -/

@[irreducible]
def setStart : ItemsState :=
  let r := processUpdate oneClass fourChunks (storeInit 16) .set [107] 0 0 3 0
  ⟨r.1, giveRef (fun _ => 0) r.2⟩

@[irreducible]
def setDone : ItemsState :=
  ⟨(completeNread oneClass noPage setStart.store 7096 .set [118, 13, 10]).1,
    dropRef setStart.held 7096⟩

@[irreducible]
def readStart : ItemsState :=
  let r := getItem oneClass setDone.store [107]
  ⟨r.1, giveRef setDone.held r.2⟩

@[irreducible]
def readDone : ItemsState :=
  ⟨doItemRemove oneClass readStart.store 7096, dropRef readStart.held 7096⟩

@[irreducible]
def laterRead : ItemsState := ⟨{ readDone.store with currentTime := 110 }, readDone.held⟩

/-- A `cas` with the unique read waits for its data. -/
@[irreducible]
def casStart : ItemsState :=
  let r := processUpdate oneClass noPage laterRead.store .cas [107] 0 0 3 1
  ⟨r.1, giveRef laterRead.held r.2⟩

theorem careful_complete {s : ItemsState} {it : Ptr} {comm : NRead} (env : AllocEnv) (data : Bytes)
    (hh : 0 < s.held it) (hl : (s.store.mem it).linked = false) (hk : comm = .set ∨ comm = .cas)
    (hleft : LinksLeft s.store) : Careful oneClass 0 s (.complete env it comm data) := by
  refine ⟨⟨hh, ?_, .inl rfl, fun _ _ _ => .inl rfl, fun _ _ _ hm => ?_⟩, hleft⟩
  · rw [modify_field (·.linked) rfl]
    exact hl
  · rcases hk with rfl | rfl <;> exact hm.1.elim nofun nofun

/-- A client that is not disturbed: the set and the read. -/
theorem readDone_run : ∃ as, Run (Guarded (Careful oneClass 0) (ClientStep oneClass 0))
    (itemsInit 16) as readDone := by
  have h1 : ClientStep oneClass 0 (itemsInit 16) (.update fourChunks .set [107] 0 0 3 0)
      setStart := by
    unfold setStart
    exact .update _ _ fourChunks .set [107] 0 0 3 0 (by decide)
  have h2 : ClientStep oneClass 0 setStart (.complete noPage 7096 .set [118, 13, 10]) setDone := by
    unfold setDone
    exact .complete setStart.store setStart.held noPage 7096 .set [118, 13, 10] (by decide +kernel)
      (by decide +kernel)
  have h3 : ClientStep oneClass 0 setDone (.get [107]) readStart := by
    unfold readStart
    exact .get setDone.store setDone.held [107]
  have h4 : ClientStep oneClass 0 readStart (.release 7096) readDone := by
    unfold readDone
    exact .release readStart.store readStart.held 7096 (by decide +kernel)
  have q1 : Careful oneClass 0 (itemsInit 16) (.update fourChunks .set [107] 0 0 3 0) :=
    ⟨fun _ => ⟨by simp [FreshPage, fourChunks, itemsInit, storeInit], rfl⟩, nofun, fun _ _ _ => .inl rfl⟩
  have q2 : Careful oneClass 0 setStart (.complete noPage 7096 .set [118, 13, 10]) :=
    careful_complete noPage _ (by decide +kernel) (by decide +kernel) (.inl rfl) (by decide +kernel)
  have q3 : Careful oneClass 0 setDone (.get [107]) := fun _ _ _ => .inl rfl
  have q4 : Careful oneClass 0 readStart (.release 7096) := trivial
  exact ⟨_, .cons ⟨q1, h1⟩ (.cons ⟨q2, h2⟩ (.cons ⟨q3, h3⟩ (.single ⟨q4, h4⟩)))⟩

theorem casStart_run : ∃ bs, Run (Guarded (Careful oneClass 0) (ClientStep oneClass 0))
    readDone bs casStart := by
  have h1 : ClientStep oneClass 0 readDone (.tick 110) laterRead := by
    unfold laterRead
    exact .tick readDone.store readDone.held 110 (by decide +kernel)
  have h2 : ClientStep oneClass 0 laterRead (.update noPage .cas [107] 0 0 3 1) casStart := by
    unfold casStart
    exact .update laterRead.store laterRead.held noPage .cas [107] 0 0 3 1 (by decide)
  have q1 : Careful oneClass 0 readDone (.tick 110) := trivial
  have q2 : Careful oneClass 0 laterRead (.update noPage .cas [107] 0 0 3 1) :=
    ⟨fun _ => ⟨by simp [FreshPage, noPage], by decide +kernel⟩, nofun, fun _ _ _ => .inl rfl⟩
  exact ⟨_, .cons ⟨q1, h1⟩ (.single ⟨q2, h2⟩)⟩

/-- The `cas` of the client that is not disturbed is stored, and the value was there when
the upload began. -/
theorem cas_stored_unchanged_set :
    lookup oneClass readDone.store [107] = some ⟨0, 0, [118], 1⟩ ∧
      ∃ e', lookup oneClass casStart.store [107] = some e' ∧ e'.value = [118] := by
  obtain ⟨as, hr⟩ := readDone_run
  obtain ⟨bs, hr₁⟩ := casStart_run
  have hread : lookup oneClass readDone.store [107] = some ⟨0, 0, [118], 1⟩ := by decide +kernel
  have hcas : ClientStep oneClass 0 casStart (.complete noPage 6096 .cas [119, 13, 10]) _ :=
    .complete casStart.store casStart.held noPage 6096 .cas [119, 13, 10] (by decide +kernel)
      (by decide +kernel)
  have hq : Careful oneClass 0 casStart (.complete noPage 6096 .cas [119, 13, 10]) :=
    careful_complete noPage _ (by decide +kernel) (by decide +kernel) (.inr rfl) (by decide +kernel)
  exact ⟨hread, cas_stored_unchanged rfl hr hread hr₁ (.nil _) ⟨hq, hcas⟩ (by decide +kernel)
    (by decide +kernel) (by decide +kernel)⟩

/-- A flush, and a `flush_all` with a delay after it. -/
@[irreducible]
def flushDone : ItemsState := ⟨flushAll oneClass 0 casStart.store 0, casStart.held⟩

@[irreducible]
def flushUndone : ItemsState := ⟨flushAll oneClass 0 flushDone.store 100, flushDone.held⟩

/-- The `flush_all` with a delay undoes the flush before it: the key has no value for a
while, and the `cas` with the unique read before is stored all the same. -/
theorem flush_revives :
    (∃ as, Run (ClientStep oneClass 0) (itemsInit 16) as readDone) ∧
    lookup oneClass readDone.store [107] = some ⟨0, 0, [118], 1⟩ ∧
    (∃ bs, Run (ClientStep oneClass 0) readDone bs flushDone) ∧
    lookup oneClass flushDone.store [107] = none ∧
    ClientStep oneClass 0 flushDone (.flushAll 100) flushUndone ∧
    flushUndone.store.key 6096 = [107] ∧ itemGetCas (flushUndone.store.mem 6096) = 1 ∧
    (∃ s, ClientStep oneClass 0 flushUndone (.complete noPage 6096 .cas [119, 13, 10]) s) ∧
    (completeNread oneClass noPage flushUndone.store 6096 .cas [119, 13, 10]).2.1 = .STORED := by
  have hmono : ∀ s a t, Guarded (Careful oneClass 0) (ClientStep oneClass 0) s a t →
      ClientStep oneClass 0 s a t := fun _ _ _ h => h.2
  obtain ⟨as, hr⟩ := readDone_run
  obtain ⟨bs, hr₁⟩ := casStart_run
  have hflush : ClientStep oneClass 0 casStart (.flushAll 0) flushDone := by
    unfold flushDone
    exact .flushAll casStart.store casStart.held 0
  have hundo : ClientStep oneClass 0 flushDone (.flushAll 100) flushUndone := by
    unfold flushUndone
    exact .flushAll flushDone.store flushDone.held 100
  exact ⟨⟨as, hr.mono hmono⟩, by decide +kernel, ⟨_, (hr₁.mono hmono).append (.single hflush)⟩,
    by decide +kernel, hundo, by decide +kernel, by decide +kernel, ⟨_, .complete
    flushUndone.store flushUndone.held noPage 6096 .cas [119, 13, 10] (by decide +kernel)
    (by decide +kernel)⟩, by decide +kernel⟩

end RamCube
