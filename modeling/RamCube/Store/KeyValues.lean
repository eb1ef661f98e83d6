import RamCube.Store.DataBlocks

/-! # The values of the keys

What clients read apart from flags, times and `cas` uniques. As long as no allocation
takes the chunk of a stored item and nothing expires, only a command that answers STORED
changes the value of a key, and only of its own. -/
namespace RamCube

variable {cfg : Settings} {processStarted : Int} {s s' : Store} {it n p old : Ptr} {held held' : Ptr → Nat}
  {key value data : Bytes} {f : Item → Item}

def valueOf (cfg : Settings) (s : Store) (key : Bytes) : Option Bytes := (lookup cfg s key).map Entry.value

/-! ## What leaves all lookups alone -/

/-- A change that stored items do not show. -/
theorem lookup_congr (h : StoreOk cfg s held) (h' : StoreOk cfg s' held')
    (hl : ∀ p, (s'.mem p).linked = (s.mem p).linked)
    (hb : ∀ p, (s.mem p).linked = true → (s'.mem p).body = (s.mem p).body ∧
      flushedOrExpired s' (s'.mem p) = flushedOrExpired s (s.mem p)) (key : Bytes) :
    lookup cfg s' key = lookup cfg s key := by
  refine Option.ext fun e => ?_
  rw [lookup_some h, lookup_some h']
  refine exists_congr fun p => ?_
  rw [hl p]
  refine and_congr_right fun hp => ?_
  obtain ⟨hbody, hdead⟩ := hb p hp
  rw [hdead, itemEntry_of_body hbody, show s'.key p = s.key p from key_of_body hbody]

theorem lookup_remove (h : StoreOk cfg s held) (h' : StoreOk cfg (doItemRemove cfg s it) held') (key : Bytes) :
    lookup cfg (doItemRemove cfg s it) key = lookup cfg s key := by
  have henv := (env_doItemRemove cfg s it).1
  refine lookup_congr h h' (fun p => (doItemRemove_mem cfg s it p).2.1) (fun p _ => ?_) key
  have hbody := (doItemRemove_mem cfg s it p).1
  exact ⟨hbody, flushedOrExpired_congr henv hbody⟩

/-- A write to an item that is not stored. -/
theorem lookup_modify (h : StoreOk cfg s held) (h' : StoreOk cfg (s.modify it f) held')
    (hl : (s.mem it).linked = false) (hf : (f (s.mem it)).linked = false) (key : Bytes) :
    lookup cfg (s.modify it f) key = lookup cfg s key := by
  refine lookup_congr h h' (fun p => modify_field (·.linked) (hf.trans hl.symm) p) (fun p hp => ?_) key
  have hne : p ≠ it := by
    rintro rfl
    rw [hl] at hp
    cases hp
  rw [modify_mem_of_ne hne]
  exact ⟨rfl, rfl⟩

theorem AllocKeeps.lookup (hk : AllocKeeps s s' n) (h : StoreOk cfg s held) (h' : StoreOk cfg s' held')
    (hfree : (s.mem n).linked = false) (key : Bytes) : lookup cfg s' key = lookup cfg s key := by
  refine lookup_congr h h' (fun p => ?_) (fun p hp => ?_) key
  · rw [hk.linked]
    by_cases hp : p = n
    · simp [hp, hfree]
    · simp [hp]
  · have hne : p ≠ n := by
      rintro rfl
      rw [hfree] at hp
      cases hp
    have hbody := hk.body p hne (h.carved_of (.inl hp))
    exact ⟨hbody, flushedOrExpired_congr hk.env hbody⟩

/-- Deleting a key that is not stored. -/
theorem deleteItem_lookup (h : ClientInv cfg ⟨s, held⟩) (hr : RoomAt cfg s key) (hnone : lookup cfg s key = none)
    (k : Bytes) : lookup cfg (deleteItem cfg s key 0).1 k = lookup cfg s k := by
  unfold deleteItem
  rcases doItemGet_outcome h.ok hr with ⟨s', he, hg⟩ | ⟨s', old, he, hg⟩
  · rw [he]
    by_cases hk : k = key
    · rw [hk, (hg.lookup_none h.ok h.rebal).1]
      exact (hg.lookup_none h.ok h.rebal).2
    · exact hg.others.lookup h.ok (hg.ok h.ok) hk
  · have hsome := hg.lookup_old h.ok
    rw [hnone] at hsome
    cases hsome

/-! ## The start of a storage command -/

theorem processUpdate_lookup (h : ClientInv cfg ⟨s, held⟩) {env : AllocEnv} {comm : NRead} {flags : Int}
    {exptime : UInt32} {vlen : Nat} {reqCas : UInt64} (ha : AllocGuard cfg env s key flags vlen 0)
    (hr : RoomAt cfg s key)
    (hfree : ∀ n, (processUpdate cfg env s comm key flags exptime vlen reqCas).2 = some n → (s.mem n).linked = false)
    (hgot : comm = .set → (processUpdate cfg env s comm key flags exptime vlen reqCas).2 = none →
      lookup cfg s key = none) (k : Bytes) :
    lookup cfg (processUpdate cfg env s comm key flags exptime vlen reqCas).1 k = lookup cfg s k := by
  unfold processUpdate at hfree hgot ⊢
  rcases doItemAlloc_spec h.ok ha.page key flags exptime vlen 0 ha.noRepair with
    he | ⟨s', n, id, i, he, hok, hk, hm⟩
  · rw [he] at hgot ⊢
    dsimp only at hgot ⊢
    split
    · rename_i hset
      rw [if_pos hset] at hgot
      exact deleteItem_lookup h hr (hgot hset rfl) k
    · rfl
  · rw [he] at hfree ⊢
    dsimp only at hfree ⊢
    have hl : (s'.mem n).linked = false := by
      rw [hm]
      rfl
    obtain ⟨op, hwrite⟩ : ∃ op, QuietStep cfg (fun _ _ => True) ⟨s', addRef held n⟩ op _ :=
      writeCas_step (addRef_self held n) hl reqCas
    have hcas : (itemSetCas (s'.mem n) reqCas).linked = false :=
      (itemSetCas_field (·.linked) (fun _ _ => rfl) (s'.mem n) reqCas).trans hl
    have hmodify := lookup_modify (f := fun i => itemSetCas i reqCas) hok (hwrite.2.keeps hok) hl hcas k
    exact hmodify.trans (hk.lookup h.ok hok (hfree n rfl) k)

/-! ## The end of a storage command -/

/-- The copy that append and prepend make does not take the chunk of a stored item. -/
def MergeSpares (cfg : Settings) (env : AllocEnv) (s : Store) (it : Ptr) (comm : NRead) : Prop :=
  ∀ s' old s2 n, doItemGet cfg s (s.key it) (cfg.hash (s.key it)) = (s', some old) →
    MergeWanted comm (s'.mem it) (s'.mem old) →
    doItemAlloc cfg env s' (s.key it) (itemFlags (s'.mem old)) (s'.mem old).exptime
      ((s'.mem it).nbytes + (s'.mem old).nbytes - 2) (cfg.hash (s.key it)) = (s2, some n) →
    (s'.mem n).linked = false

/-- What a storage command binds has the value it gives the key, and lives as long as the
new entry or the old one. -/
theorem storeSpec_cases (comm : NRead) (o : Option Entry) (new : Entry) (cas : UInt64) :
    (storeSpec comm o new cas).1 ≠ .STORED ∧ (storeSpec comm o new cas).2 = none ∨
      (storeSpec comm o new cas).1 = .STORED ∧ ∃ e, (storeSpec comm o new cas).2 = some e ∧
        e.value = newValue comm (o.map Entry.value) new.value ∧
        (e.exptime = new.exptime ∨ ∃ e', o = some e' ∧ e.exptime = e'.exptime) := by
  cases o with
  | none =>
    cases comm with
    | add | set => exact .inr ⟨rfl, _, rfl, rfl, .inl rfl⟩
    | replace | append | prepend | cas => exact .inl ⟨nofun, rfl⟩
  | some e =>
    cases comm with
    | add => exact .inl ⟨nofun, rfl⟩
    | set | replace => exact .inr ⟨rfl, _, rfl, rfl, .inl rfl⟩
    | append | prepend =>
      dsimp only [storeSpec]
      split
      · exact .inl ⟨nofun, rfl⟩
      · exact .inr ⟨rfl, _, rfl, rfl, .inr ⟨e, rfl, rfl⟩⟩
    | cas =>
      dsimp only [storeSpec]
      split
      · exact .inr ⟨rfl, _, rfl, rfl, .inl rfl⟩
      · exact .inl ⟨nofun, rfl⟩

theorem visible_of_exptime {e e' : Entry} (hv : visible s e = true) (he : e'.exptime = e.exptime) :
    visible s e' = true := by
  unfold visible at hv ⊢
  rwa [he]

/-- Where an entry just stored is found, so is one that lives as long as an entry found. -/
theorem visible_of_lookup {e e' : Entry} (h : StoreOk cfg s held) (hl : lookup cfg s key = some e)
    (hv : visible s e' = true) : visible s e = true := by
  obtain ⟨p, -, -, hlive, rfl⟩ := (lookup_some h).mp hl
  rw [flushedOrExpired, Bool.or_eq_false_iff] at hlive
  unfold visible at hv ⊢
  rw [Bool.and_eq_true] at hv ⊢
  exact ⟨hv.1, by rw [Bool.not_eq_true']; exact hlive.2⟩

/-- The command when no copy is made, or when it gets a chunk. -/
theorem StoreRefines.values {comm : NRead} {new : Entry} {cas : UInt64} {r : StoreItemType × Ptr}
    (hr : StoreRefines cfg s s' key (storeSpec comm (lookup cfg s key) new cas) r) (h : StoreOk cfg s held)
    (hv : visible s new = true) (k : Bytes) :
    valueOf cfg s' k = giveValue (valueOf cfg s) key comm new.value r.1 k := by
  have hothers : k ≠ key → valueOf cfg s' k = valueOf cfg s k := fun hk => congrArg _ (hr.others k hk)
  rcases storeSpec_cases comm (lookup cfg s key) new cas with ⟨hres, hnone⟩ | ⟨hres, e, he, hvalue, hexp⟩
  · rw [giveValue, if_neg (by rwa [hr.result])]
    by_cases hk : k = key
    · rw [hk, valueOf, hr.unchanged hnone]
      rfl
    · exact hothers hk
  · rw [giveValue, if_pos (by rwa [hr.result])]
    by_cases hk : k = key
    · obtain ⟨-, hlookup, -⟩ := hr.bound e he
      have hvis : visible s e = true := by
        rcases hexp with hexp | ⟨e', hl, hexp⟩
        · exact visible_of_exptime hv hexp
        · exact visible_of_exptime (visible_of_lookup h hl hv) hexp
      rw [if_pos hvis] at hlookup
      rw [hk, Function.update_self, valueOf, hlookup, Option.map_some, hvalue]
      rfl
    · rw [Function.update_of_ne hk]
      exact hothers hk

/-- A merge that gets no chunk leaves everything as it was. -/
theorem doStoreItem_noChunk {env : AllocEnv} {comm : NRead} (h : ClientInv cfg ⟨s, held⟩)
    (g : StoreGuard cfg env s held it comm)
    (he : doItemGet cfg s (s.key it) (cfg.hash (s.key it)) = (s', some old))
    (hm : MergeWanted comm (s'.mem it) (s'.mem old))
    (hno : ¬∃ s2 n, doItemAlloc cfg env s' (s.key it) (itemFlags (s'.mem old)) (s'.mem old).exptime
      ((s'.mem it).nbytes + (s'.mem old).nbytes - 2) (cfg.hash (s.key it)) = (s2, some n)) :
    (doStoreItem cfg env s it comm (cfg.hash (s.key it))).2.1 = .NOT_STORED ∧
      ∀ k, lookup cfg (doStoreItem cfg env s it comm (cfg.hash (s.key it))).1 k = lookup cfg s k := by
  obtain ⟨s1, o, he', hg⟩ := (doItemGet_outcome h.ok g.roomAt).resolve_left fun ⟨s1, he', _⟩ => by
    rw [he] at he'
    cases he'
  rw [he] at he'
  obtain ⟨rfl, rfl⟩ : s' = s1 ∧ old = o := by simpa using he'
  have ha := g.alloc s' old he hm
  have hk : itemKey (s'.mem it) = s.key it := key_of_body (hg.body it)
  have hnone : doItemAlloc cfg env s' (s.key it) (itemFlags (s'.mem old)) (s'.mem old).exptime
      ((s'.mem it).nbytes + (s'.mem old).nbytes - 2) (cfg.hash (s.key it)) = (s', none) :=
    (doItemAlloc_spec (hg.ok h.ok) ha.page _ _ (s'.mem old).exptime _ _ ha.noRepair).resolve_right
      fun ⟨s2, n, _, _, hsome, _⟩ => hno ⟨s2, n, hsome⟩
  have hstore : doStoreItem cfg env s it comm (cfg.hash (s.key it)) = (doItemRemove cfg s' old, .NOT_STORED, it) := by
    have hmerge : storeMerged cfg env s' old it comm (cfg.hash (s.key it)) = (doItemRemove cfg s' old, .NOT_STORED, it) := by
      unfold storeMerged
      dsimp only
      rw [hk, hnone]
    unfold doStoreItem
    rw [he]
    obtain ⟨rfl | rfl, hcas⟩ := hm
    · dsimp only
      rw [if_neg hcas, hmerge]
    · dsimp only
      rw [if_neg hcas, hmerge]
  rw [hstore]
  refine ⟨rfl, fun k => ?_⟩
  by_cases hkey : k = s.key it
  · rw [hkey]
    exact hg.release h.ok
  · have hok := run_keeps (hg.ok h.ok) (giveBack_run s' held old)
    exact (hg.others.trans (othersKept_remove cfg s' old _)).lookup h.ok hok hkey

theorem storeRelease_values (h : ClientInv cfg ⟨s, held⟩) {env : AllocEnv} {comm : NRead}
    (g : StoreGuard cfg env s held it comm) (hspares : MergeSpares cfg env s it comm)
    (hv : visible s (itemEntry (s.mem it)) = true) (k : Bytes) :
    valueOf cfg (storeRelease cfg env s it comm).1 k =
      giveValue (valueOf cfg s) (s.key it) comm (itemEntry (s.mem it)).value (storeRelease cfg env s it comm).2 k := by
  have hstored := run_keeps h.ok (doStoreItem_run (w := fun _ _ => True) h.ok h.items g fun _ => trivial)
  have hremoved := run_keeps hstored (run_step (remove_step g.held))
  have hrelease : valueOf cfg (storeRelease cfg env s it comm).1 k =
      valueOf cfg (doStoreItem cfg env s it comm (cfg.hash (s.key it))).1 k :=
    congrArg _ (lookup_remove hstored hremoved k)
  rw [hrelease]
  by_cases hm : MergeRoom cfg env s it comm
  · exact (doStoreItem_spec h.ok h.items h.order h.rebal g hm).values h.ok hv k
  · unfold MergeRoom at hm
    push Not at hm
    obtain ⟨s', old, he, hwanted, hno⟩ := hm
    obtain ⟨hres, hsame⟩ := doStoreItem_noChunk h g he hwanted fun ⟨s2, n, hal⟩ => by
      obtain ⟨hl, -⟩ := hno s2 n hal
      rw [hspares s' old s2 n he hwanted hal] at hl
      cases hl
    have hnot : (storeRelease cfg env s it comm).2 ≠ .STORED := by
      change (doStoreItem cfg env s it comm (cfg.hash (s.key it))).2.1 ≠ .STORED
      rw [hres]
      nofun
    rw [giveValue, if_neg hnot, valueOf, hsame]
    rfl

/-! ## What decides whether the command stores -/

/-- Append or prepend gets a chunk for the copy it stores. -/
def CopyMade (cfg : Settings) (env : AllocEnv) (s : Store) (it : Ptr) (comm : NRead) : Prop :=
  ∃ s' old s2 n, doItemGet cfg s (s.key it) (cfg.hash (s.key it)) = (s', some old) ∧
    MergeWanted comm (s'.mem it) (s'.mem old) ∧
    doItemAlloc cfg env s' (s.key it) (itemFlags (s'.mem old)) (s'.mem old).exptime
      ((s'.mem it).nbytes + (s'.mem old).nbytes - 2) (cfg.hash (s.key it)) = (s2, some n)

/-- The key is as the command needs it, and there is a chunk for the copy if it makes one. -/
def WillStore (cfg : Settings) (env : AllocEnv) (s : Store) (it : Ptr) (comm : NRead) : Prop :=
  (storeSpec comm (lookup cfg s (s.key it)) (itemEntry (s.mem it)) 0).1 = .STORED ∧
    (comm = .append ∨ comm = .prepend → CopyMade cfg env s it comm)

theorem storeMerged_copy {env : AllocEnv} {comm : NRead}
    (he : doItemGet cfg s (s.key it) (cfg.hash (s.key it)) = (s', some old)) (hg : Got cfg s held (s.key it) s' old)
    (hm : MergeWanted comm (s'.mem it) (s'.mem old))
    (hres : (storeMerged cfg env s' old it comm (cfg.hash (s.key it))).2.1 = .STORED) :
    CopyMade cfg env s it comm := by
  have hk : itemKey (s'.mem it) = s.key it := key_of_body (hg.body it)
  unfold storeMerged at hres
  dsimp only at hres
  rw [hk] at hres
  rcases hc : doItemAlloc cfg env s' (s.key it) (itemFlags (s'.mem old)) (s'.mem old).exptime
    ((s'.mem it).nbytes + (s'.mem old).nbytes - 2) (cfg.hash (s.key it)) with ⟨s2, _ | n⟩
  · rw [hc] at hres
    cases hres
  · exact ⟨s', old, s2, n, he, hm, hc⟩

theorem doStoreItem_willStore (h : ClientInv cfg ⟨s, held⟩) {env : AllocEnv} {comm : NRead}
    (g : StoreGuard cfg env s held it comm)
    (hres : (doStoreItem cfg env s it comm (cfg.hash (s.key it))).2.1 = .STORED) : WillStore cfg env s it comm := by
  unfold doStoreItem at hres
  rcases doItemGet_outcome h.ok g.roomAt with ⟨s', he, hg⟩ | ⟨s', old, he, hg⟩
  · rw [he] at hres
    rw [WillStore, (hg.lookup_none h.ok h.rebal).1]
    cases comm with
    | add | set => exact ⟨rfl, nofun⟩
    | replace | append | prepend | cas => cases hres
  · rw [he] at hres
    rw [WillStore, hg.lookup_old h.ok]
    have hcas : (itemEntry (s.mem it)).cas = itemGetCas (s'.mem it) := (itemGetCas_stored (stored_of_body (hg.body it))).symm
    have hold : (itemEntry (s'.mem old)).cas = itemGetCas (s'.mem old) := rfl
    cases comm with
    | add => cases hres
    | set | replace => exact ⟨rfl, nofun⟩
    | append | prepend =>
      dsimp only at hres
      split at hres
      · cases hres
      · rename_i hc
        refine ⟨?_, fun hm => storeMerged_copy he hg ⟨hm, hc⟩ hres⟩
        dsimp only [storeSpec]
        rw [hcas, hold, if_neg hc]
    | cas =>
      dsimp only at hres
      split at hres
      · rename_i hc
        refine ⟨?_, nofun⟩
        dsimp only [storeSpec]
        rw [hcas, hold, if_pos hc]
      · cases hres

/-- `do_store_item` changes the links and the `cas` of its item at most. -/
theorem doStoreItem_field {β : Type} (g : Item → β) (hstored : ∀ i, g i.stored = g i)
    (hcas : ∀ i c, g { i with cas := c } = g i) (h : StoreOk cfg s held) {env : AllocEnv} {comm : NRead}
    (hg : StoreGuard cfg env s held it comm) :
    g ((doStoreItem cfg env s it comm (cfg.hash (s.key it))).1.mem it) = g (s.mem it) := by
  have hsame : ∀ {m : Store}, Untouched s m it → g (m.mem it) = g (s.mem it) :=
    fun hu => stored_field g hstored (stored_of_body hu.body)
  have haside : Aside s (s.key it) it := by
    intro hl
    rw [hg.unlinked] at hl
    cases hl
  unfold doStoreItem
  rcases doItemGet_outcome h hg.roomAt with ⟨s', he, hmiss⟩ | ⟨s', old, he, hgot⟩
  · rw [he]
    have hmissed : g (s'.mem it) = g (s.mem it) := hsame (hmiss.untouched haside)
    cases comm with
    | add | set => exact (linked_stored (link_mem cfg s' it _).2.1 g hstored hcas).trans hmissed
    | replace | append | prepend | cas => exact hmissed
  · rw [he]
    have hne : it ≠ old := hgot.ne hg.unlinked
    have hu : Untouched s s' it := hgot.untouched it
    have hgive : g ((doItemRemove cfg s' old).mem it) = g (s.mem it) := hsame (hu.trans (untouched_remove cfg s' old it))
    have hover : g ((doItemRemove cfg (doItemReplace cfg s' old it (cfg.hash (s.key it))) old).mem it) = g (s.mem it) := by
      have hremove := untouched_remove cfg (doItemReplace cfg s' old it (cfg.hash (s.key it))) old it
      rw [stored_field g hstored (stored_of_body hremove.body)]
      exact (linked_stored (replace_mem cfg s' old it _ hne).2.1 g hstored hcas).trans (hsame hu)
    have hmerge : MergeWanted comm (s'.mem it) (s'.mem old) →
        g ((storeMerged cfg env s' old it comm (cfg.hash (s.key it))).1.mem it) = g (s.mem it) := by
      intro hm
      rcases storeMerged_apart hgot h hg he hm (.inr hg.held) haside with hu | ht
      · exact hsame hu
      · exact absurd ht.unheld (Nat.pos_iff_ne_zero.mp hg.held)
    cases comm with
    | add => exact hsame ((hu.trans (untouched_update hne)).trans (untouched_remove cfg _ old it))
    | set | replace => exact hover
    | append | prepend =>
      dsimp only
      split
      · exact hgive
      · rename_i hm
        exact hmerge ⟨by simp, hm⟩
    | cas =>
      dsimp only
      split
      · exact hover
      · exact hgive

theorem ClientInv.write {off : Nat} (h : ClientInv cfg ⟨s, held⟩) (hh : 0 < held it) (hl : (s.mem it).linked = false) :
    ClientInv cfg ⟨s.modify it (writeData off data), held⟩ := by
  obtain ⟨op, hwrite⟩ : ∃ op, QuietStep cfg (fun _ _ => True) ⟨s, held⟩ op _ :=
    write_step hh hl (writeData_bytes off data (s.mem it))
  exact (h.of_run (w := fun _ => True) (run_step ⟨op, hwrite⟩)).1

theorem nreadAscii_inv (h : ClientInv cfg ⟨s, held⟩) {env : AllocEnv} {comm : NRead}
    (g : StoreGuard cfg env (s.modify it (writeData 0 data)) held it comm) :
    ClientInv cfg ⟨(nreadAscii cfg env s it comm data).1, dropRef held it⟩ := by
  have hl : (s.mem it).linked = false := by
    have hu := g.unlinked
    rwa [modify_field (·.linked) rfl] at hu
  have hinv : ClientInv cfg ⟨s.modify it (writeData 0 data), held⟩ := h.write g.held hl
  unfold nreadAscii
  dsimp only
  split
  · exact (storeRelease_ages hinv g).1
  · exact (hinv.of_run (w := fun _ => True) (run_step (remove_step g.held))).1

theorem nreadAscii_stored {env : AllocEnv} {comm : NRead} (hres : (nreadAscii cfg env s it comm data).2 = .STORED) :
    EndsInCrlf ((s.modify it (writeData 0 data)).mem it) ∧
      (doStoreItem cfg env (s.modify it (writeData 0 data)) it comm
        (cfg.hash ((s.modify it (writeData 0 data)).key it))).2.1 = .STORED := by
  unfold nreadAscii at hres
  dsimp only at hres
  split at hres
  · rename_i hends
    exact ⟨hends, hres⟩
  · cases hres

/-- `complete_nread_ascii` gives the key a value exactly if it answers STORED. -/
theorem nreadAscii_values (h : ClientInv cfg ⟨s, held⟩) {env : AllocEnv} {comm : NRead}
    (hlen : data.length = (s.mem it).nbytes)
    (g : StoreGuard cfg env (s.modify it (writeData 0 data)) held it comm)
    (hspares : MergeSpares cfg env (s.modify it (writeData 0 data)) it comm)
    (hv : visible s (itemEntry (s.mem it)) = true) (k : Bytes) :
    valueOf cfg (nreadAscii cfg env s it comm data).1 k =
      giveValue (valueOf cfg s) (s.key it) comm (data.take (data.length - 2)) (nreadAscii cfg env s it comm data).2 k := by
  have hl : (s.mem it).linked = false := by
    have hu := g.unlinked
    rwa [modify_field (·.linked) rfl] at hu
  have hinv : ClientInv cfg ⟨s.modify it (writeData 0 data), held⟩ := h.write g.held hl
  have hsame := fun k => lookup_modify h.ok hinv.ok hl (f := writeData 0 data) hl k
  have hvalues : valueOf cfg (s.modify it (writeData 0 data)) = valueOf cfg s := funext fun k => congrArg _ (hsame k)
  have hkey : (s.modify it (writeData 0 data)).key it = s.key it := by
    obtain ⟨bytes, he, hb⟩ := writeData_bytes 0 data (s.mem it)
    unfold Store.key
    rw [modify_mem_self, he, itemKey_write hb]
  have hvalue : (itemEntry ((s.modify it (writeData 0 data)).mem it)).value = data.take (data.length - 2) := by
    change (itemData ((s.modify it (writeData 0 data)).mem it)).take _ = _
    rw [modify_mem_self, itemData_writeData hlen, hlen]
    rfl
  have hvis : visible (s.modify it (writeData 0 data)) (itemEntry ((s.modify it (writeData 0 data)).mem it)) = true := by
    rw [modify_mem_self]
    exact hv
  unfold nreadAscii
  dsimp only
  split
  · have hrelease := storeRelease_values hinv g hspares hvis k
    rwa [hvalues, hkey, hvalue] at hrelease
  · have hremove : lookup cfg (doItemRemove cfg (s.modify it (writeData 0 data)) it) k = _ :=
      lookup_remove hinv.ok (run_keeps hinv.ok (run_step (remove_step g.held))) k
    rw [giveValue, if_neg nofun, valueOf, hremove, hsame]
    rfl

end RamCube
