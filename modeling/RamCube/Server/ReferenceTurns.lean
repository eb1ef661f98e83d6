import RamCube.Server.Flags
import RamCube.Server.References

/-! # References from turn to turn (memcached.c)

What the requests of the binary protocol and the turns of `drive_machine` do to the
references of a connection. -/
namespace RamCube

variable {cfg : Config} {env : Env} {c c' c₁ : Conn} {g g' : Globals} {all others drafts : List Ptr} {it : Ptr} {s s' : Session}

/-! ## Requests -/

theorem binReadKey_reads {next : BinSubstate} {extra : Nat} (hb : c.protocol = .binary)
    (hn : next ∉ [.readSetValue, .readingSaslAuthData]) : ReadsPacket (binReadKey c next extra) := ⟨⟨[], rfl⟩, hb, hn⟩

/-- A request that is answered at once, or whose extras and key are read next. -/
theorem dispatchBinOpcode_reads (hb : c.protocol = .binary) (hd : dispatchBinOpcode cfg c = some c') (hs : c'.state = .nread) :
    ReadsPacket c' := by
  cases dispatchBinOpcode_cases hd with
  | key next extra hn =>
    refine binReadKey_reads hb fun hm => ?_
    simp only [List.mem_cons, List.not_mem_nil, or_false] at hm
    obtain rfl | rfl := hm <;> exact absurd hn (by decide)
  | update | append | sasl => exact binReadKey_reads hb (by decide)
  | answered _ hf => exact absurd hs hf.settled.not_nread
  | quit _ _ hq =>
    obtain hq | ⟨hq, _⟩ := hq <;> simp [hq] at hs
  | unknown => exact absurd hs (by simp [writeBinError_state])

theorem sameRefs_writeBinResponse (c : Conn) (d : Bytes) (hlen keylen : Nat) : SameRefs c (writeBinResponse c d hlen keylen) :=
  .of_core (core_writeBinResponse c d hlen keylen)

theorem sameRefs_initSaslConn (cfg : Config) (c : Conn) : SameRefs c (initSaslConn cfg c) := by
  unfold initSaslConn
  split
  · exact .refl c
  · split
    · exact .refl c
    · split <;> exact ⟨⟨rfl, rfl, rfl⟩, rfl⟩

theorem sameRefs_binListSaslMechs (cfg : Config) (c : Conn) : SameRefs c (binListSaslMechs cfg c) := by
  unfold binListSaslMechs
  dsimp only
  split
  · exact sameRefs_writeBinError ..
  · split
    · exact (sameRefs_initSaslConn cfg c).trans (sameRefs_writeBinError ..)
    · exact (sameRefs_initSaslConn cfg c).trans (sameRefs_writeBinResponse ..)

theorem forall_mem_ite {α : Type} {p : Prop} [Decidable p] {a b : Option α} {q : α → Prop} (ha : ∀ x ∈ a, q x) (hb : ∀ x ∈ b, q x) :
    ∀ x ∈ if p then a else b, q x := by
  split
  · exact ha
  · exact hb

theorem dispatchBinOpcode_same : ∀ c' ∈ dispatchBinOpcode cfg c, SameRefs c c' := by
  have hkey : ∀ next extra, SameRefs c (binReadKey c next extra) := fun _ _ => ⟨⟨rfl, rfl, rfl⟩, rfl⟩
  unfold dispatchBinOpcode
  dsimp only
  repeat' refine forall_mem_ite ?_ ?_
  all_goals
    intro c' hd
    simp only [Option.mem_def, Option.some.injEq, reduceCtorEq] at hd
  all_goals rw [← hd]
  all_goals first
    | with_reducible exact hkey _ _
    | with_reducible exact sameRefs_writeBinResponse ..
    | with_reducible exact sameRefs_writeBinError ..
    | with_reducible exact sameRefs_binListSaslMechs ..
    | split <;> exact (sameRefs_writeBinResponse c [] 0 0).trans ⟨⟨rfl, rfl, rfl⟩, rfl⟩

theorem unrecorded_protocolError (hc : SameRefs c c₁) (h : HeldBy cfg.toSettings g.store all drafts) :
    Unrecorded cfg all drafts c (handleBinaryProtocolError c₁) g := by
  refine ⟨hc.trans ((sameRefs_writeBinError c₁ .EINVAL 0).trans ⟨⟨rfl, rfl, rfl⟩, rfl⟩), fun hs => ?_, h⟩
  exact absurd ((writeBinError_state c₁ .EINVAL 0).symm.trans hs) (by decide)

theorem dispatchBinCommand_unrecorded (hb : c.protocol = .binary) (h : HeldBy cfg.toSettings g.store all drafts) :
    Unrecorded cfg all drafts c (dispatchBinCommand cfg c) g := by
  unfold dispatchBinCommand
  split
  · refine ⟨(sameRefs_writeBinError c .AUTH_ERROR 0).trans ⟨⟨rfl, rfl, rfl⟩, rfl⟩, fun hs => ?_, h⟩
    exact absurd ((writeBinError_state c .AUTH_ERROR 0).symm.trans hs) (by decide)
  · split
    · exact unrecorded_protocolError ⟨⟨rfl, rfl, rfl⟩, rfl⟩ h
    · have hquiet : ∀ c₁ : Conn, SameRefs c c₁ → c₁.protocol = .binary →
          Unrecorded cfg all drafts c ((dispatchBinOpcode cfg c₁).getD (handleBinaryProtocolError c₁)) g := by
        intro c₁ hc hb₁
        cases hd : dispatchBinOpcode cfg c₁ with
        | none => exact unrecorded_protocolError hc h
        | some c' => exact ⟨hc.trans (dispatchBinOpcode_same c' hd), dispatchBinOpcode_reads hb₁ hd, h⟩
      split <;> exact hquiet _ ⟨⟨rfl, rfl, rfl⟩, rfl⟩ hb

/-! ## What a request needs -/

/-- The store in which `complete_update_bin` stores the item. -/
def endedValue (s : Store) (it : Ptr) : Store := s.modify it fun i => writeData (i.nbytes - 2) [CR, LF] i

/-- The calls of `complete_incr_bin` where the key is not stored, in the store after the lookup. -/
def initialCalls (cfg : Config) (env : Env) (c : Conn) (s : Store) : List StoreCall :=
  if c.bodyField 16 4 = 0xffffffff then []
  else
    let exptime := realtime cfg.processStarted s (c.bodyField 16 4)
    .alloc (env.alloc s) s c.binKey 0 exptime INCR_MAX_STORAGE_LEN 0 ::
      match doItemAlloc cfg.toSettings (env.alloc s) s c.binKey 0 exptime INCR_MAX_STORAGE_LEN 0 with
      | (_, none) => []
      | (s', some it) =>
        let s' := s'.modify it (writeData 0 (decimal (c.bodyField 8 8) ++ [0]))
        storeCalls cfg.toSettings (env.alloc s') s' it .add

/-- The calls of `complete_incr_bin`. -/
def incrCalls (cfg : Config) (env : Env) (c : Conn) (g : Globals) : List StoreCall :=
  let delta := UInt64.ofNat (c.bodyField 0 8)
  let added := addDelta cfg env g c.binKey (c.cmd = CMD_INCREMENT) delta c.binaryHeader.cas
  deltaCalls cfg.toSettings (env.alloc g.store) g.store c.binKey (c.cmd = CMD_INCREMENT) delta c.binaryHeader.cas ++
    if added.2.result = .DELTA_ITEM_NOT_FOUND then initialCalls cfg env c added.1.store else []

/-- The calls of a value that is stored. -/
def valueCalls (cfg : Config) (env : Env) (c : Conn) (s : Store) : List StoreCall :=
  match c.item, nreadOfCmd c.cmd with
  | some it, some comm => storeCalls cfg.toSettings (env.alloc s) s it comm
  | _, _ => []

/-- The calls of `complete_nread`. -/
def blockCalls (cfg : Config) (env : Env) (c : Conn) (g : Globals) : List StoreCall :=
  if c.protocol = .binary then
    match c.substate with
    | .readingSetHeader =>
      if c.cmd = CMD_APPEND ∨ c.cmd = CMD_PREPEND then
        itemAllocCalls (env.alloc g.store) g.store c.binKey 0 0 (asInt (keyedVlen c.binaryHeader + 2))
      else updateCalls cfg.toSettings (env.alloc g.store) g.store c.binKey (asInt (c.bodyField 0 4))
        (realtime cfg.processStarted g.store (c.bodyField 4 4)) (asInt (updateVlen c.binaryHeader + 2)) (c.cmd = CMD_SET)
    | .readSetValue => match c.item with
      | some it => valueCalls cfg env c (endedValue g.store it)
      | none => []
    | .readingGetKey | .readingTouchKey | .readingDelHeader => [.get g.store c.binKey]
    | .readingIncrHeader => incrCalls cfg env c g
    | .readingSaslAuth =>
      if cfg.sasl = false ∨ MAX_SASL_MECH_LEN < c.keylen then []
      else itemAllocCalls (env.alloc g.store) g.store c.binKey 0 0 (keyedVlen c.binaryHeader)
    | _ => []
  else match c.item with
    | some it => if dataEnds (g.store.mem it) = true then valueCalls cfg env c g.store else []
    | none => []

/-! ## Extras and keys -/

theorem readValue_recorded {cmd m : Int} {next : BinSubstate} (hn : next ∈ [.readSetValue, .readingSaslAuthData])
    (h : HeldBy cfg.toSettings g'.store (it :: all) (it :: drafts)) :
    Recorded cfg all drafts c (readValue { c with cmd := cmd } it m next) g' it :=
  ⟨⟨rfl, rfl, rfl⟩, rfl, .inr ⟨rfl, ⟨0, rfl⟩, rfl, fun _ => hn⟩, h⟩

theorem unrecorded_binErrorSwallow (err : BinStatus) (m : Int) (h : HeldBy cfg.toSettings g'.store all drafts) :
    Unrecorded cfg all drafts c (binErrorSwallow c err m) g' :=
  ⟨(sameRefs_writeBinError c err m).trans ⟨⟨rfl, rfl, rfl⟩, rfl⟩,
    fun hs => absurd ((writeBinError_state c err m).symm.trans hs) (by decide), h⟩

theorem unrecorded_writeBinError (err : BinStatus) (m : Int) (h : HeldBy cfg.toSettings g'.store all drafts) :
    Unrecorded cfg all drafts c (writeBinError c err m) g' :=
  ⟨sameRefs_writeBinError c err m, fun hs => absurd ((writeBinError_state c err m).symm.trans hs) (by decide), h⟩

theorem unrecorded_writeBinResponse (hc : SameRefs c c₁) (d : Bytes) (hlen keylen : Nat)
    (h : HeldBy cfg.toSettings g'.store all drafts) : Unrecorded cfg all drafts c (writeBinResponse c₁ d hlen keylen) g' :=
  ⟨hc.trans (sameRefs_writeBinResponse c₁ d hlen keylen),
    fun hs => absurd hs (settled_writeBinResponse d hlen keylen).not_nread, h⟩

theorem unrecorded_missResponse (withKey : Bool) (h : HeldBy cfg.toSettings g'.store all drafts) :
    Unrecorded cfg all drafts c (missResponse c withKey) g' := by
  refine ⟨?_, fun hs => absurd hs (settled_missResponse withKey).not_nread, h⟩
  unfold missResponse
  split
  · exact ⟨⟨rfl, rfl, rfl⟩, rfl⟩
  · split
    · exact ⟨⟨rfl, rfl, rfl⟩, rfl⟩
    · exact sameRefs_writeBinError ..

theorem itemResponse_recorded (i : Item) (key value : Bytes) (h : HeldBy cfg.toSettings g'.store (it :: all) drafts) :
    Recorded cfg all drafts c (itemResponse c it i key value) g' it :=
  ⟨⟨rfl, rfl, rfl⟩, rfl, .inl rfl, h⟩

/-- What a request does whose extras and key were read: it answers, or records an item. -/
def Takes (cfg : Config) (all drafts : List Ptr) (c c' : Conn) (g' : Globals) : Prop :=
  Unrecorded cfg all drafts c c' g' ∨ ∃ it, Recorded cfg all drafts c c' g' it

theorem Takes.keepsIf {remembers : Prop} (h : Takes cfg (c.refs ++ others) drafts c c' g') (hd : c.draft = []) :
    KeepsIf cfg others drafts c c' g' remembers := by
  obtain ha | ⟨it, hr⟩ := h
  · exact ha.keepsIf hd
  · exact hr.keepsIf hd

section

variable (h : HeldBy cfg.toSettings g.store all drafts)
include h

theorem processBinUpdate_takes (hn : CallsNeed cfg.toSettings (updateCalls cfg.toSettings (env.alloc g.store) g.store c.binKey
      (asInt (c.bodyField 0 4)) (realtime cfg.processStarted g.store (c.bodyField 4 4)) (asInt (updateVlen c.binaryHeader + 2))
      (c.cmd = CMD_SET)))
    (he : processBinUpdate cfg env c g = some (c', g')) : Takes cfg all drafts c c' g' := by
  simp only [processBinUpdate, Option.bind_eq_bind, Option.bind_eq_some_iff] at he
  obtain ⟨⟨s, r⟩, ha, he⟩ := he
  cases r with
  | none =>
    obtain rfl := itemAlloc_same h hn.left ha
    cases he
    refine .inl (unrecorded_binErrorSwallow _ _ ?_)
    dsimp only
    split
    · rw [decide_eq_true ‹c.cmd = CMD_SET›] at hn
      exact h.delete 0 ((updateCalls_lookup hn ha).roomAt h.ok)
    · exact h
  | some it =>
    cases he
    exact .inr ⟨it, readValue_recorded (by decide) ((itemAlloc_held h hn.left ha).setCas List.mem_cons_self _)⟩

theorem processBinAppendPrepend_takes (hn : CallsNeed cfg.toSettings (itemAllocCalls (env.alloc g.store) g.store c.binKey 0 0
      (asInt (keyedVlen c.binaryHeader + 2))))
    (he : processBinAppendPrepend cfg env c g = some (c', g')) : Takes cfg all drafts c c' g' := by
  simp only [processBinAppendPrepend, Option.bind_eq_bind, Option.bind_eq_some_iff] at he
  obtain ⟨⟨s, r⟩, ha, he⟩ := he
  cases r with
  | none =>
    obtain rfl := itemAlloc_same h hn ha
    cases he
    exact .inl (unrecorded_binErrorSwallow _ _ h)
  | some it =>
    cases he
    exact .inr ⟨it, readValue_recorded (by decide) ((itemAlloc_held h hn ha).setCas List.mem_cons_self _)⟩

theorem processBinSaslAuth_takes (hn : ¬(cfg.sasl = false ∨ MAX_SASL_MECH_LEN < c.keylen) → CallsNeed cfg.toSettings
      (itemAllocCalls (env.alloc g.store) g.store c.binKey 0 0 (keyedVlen c.binaryHeader)))
    (he : processBinSaslAuth cfg env c g = some (c', g')) : Takes cfg all drafts c c' g' := by
  unfold processBinSaslAuth at he
  dsimp only at he
  split at he
  · cases he
    exact .inl (unrecorded_writeBinError _ _ h)
  · split at he
    · cases he
      exact .inl (unrecorded_binErrorSwallow _ _ h)
    · have hn := hn (not_or.mpr ⟨‹_›, ‹_›⟩)
      obtain ⟨⟨s, r⟩, ha, he⟩ := Option.bind_eq_some_iff.mp he
      cases r with
      | none =>
        obtain rfl := itemAlloc_same h hn ha
        cases he
        exact .inl (unrecorded_binErrorSwallow _ _ h)
      | some it =>
        cases he
        exact .inr ⟨it, readValue_recorded (by decide) (itemAlloc_held h hn ha)⟩

theorem processBinGet_takes (hn : CallsNeed cfg.toSettings [.get g.store c.binKey]) :
    Takes cfg all drafts c (processBinGet cfg c g).1 (processBinGet cfg c g).2 := by
  have hget := h.get (hn.head.roomAt h.ok)
  unfold processBinGet
  rcases he : getItem cfg.toSettings g.store c.binKey with ⟨s, _ | it⟩ <;> rw [he] at hget
  · exact .inl (unrecorded_missResponse _ hget)
  · exact .inr ⟨it, itemResponse_recorded _ _ _ hget⟩

theorem processBinTouch_takes (hn : CallsNeed cfg.toSettings [.get g.store c.binKey]) :
    Takes cfg all drafts c (processBinTouch cfg c g).1 (processBinTouch cfg c g).2 := by
  have ht := h.touch (realtime cfg.processStarted g.store (c.bodyField 0 4)) (hn.head.roomAt h.ok)
  unfold processBinTouch
  dsimp only
  rcases he : touchItem cfg.toSettings g.store c.binKey (realtime cfg.processStarted g.store (c.bodyField 0 4)) with ⟨s, _ | it⟩ <;>
    rw [he] at ht
  · exact .inl (unrecorded_missResponse _ ht)
  · exact .inr ⟨it, itemResponse_recorded _ _ _ ht⟩

theorem processBinDelete_unrecorded (hn : CallsNeed cfg.toSettings [.get g.store c.binKey]) :
    Unrecorded cfg all drafts c (processBinDelete cfg c g).1 (processBinDelete cfg c g).2 := by
  have hd := h.delete c.binaryHeader.cas (hn.head.roomAt h.ok)
  unfold processBinDelete
  rcases he : deleteItem cfg.toSettings g.store c.binKey c.binaryHeader.cas with ⟨s, _ | _ | _⟩ <;> rw [he] at hd <;>
    dsimp only
  · exact unrecorded_writeBinError _ _ hd
  · exact unrecorded_writeBinError _ _ hd
  · exact unrecorded_writeBinResponse (.refl c) _ _ _ hd

theorem processBinStat_unrecorded (env : Env) : Unrecorded cfg all drafts c (processBinStat env c g).1 (processBinStat env c g).2 := by
  unfold processBinStat
  split_ifs <;> dsimp only <;> first | exact unrecorded_writeAndFree _ h | exact unrecorded_writeBinError _ _ h

end

/-! ## Values -/

theorem HeldBy.subset {cfg : Settings} {s : Store} (h : HeldBy cfg s all drafts) : drafts ⊆ all := fun p hp =>
  List.count_pos_iff.mp (Nat.lt_of_lt_of_eq Nat.one_pos (h.draft p hp).1.symm)

/-- No other client writes to the same item. -/
theorem HeldBy.alone {cfg : Settings} {s : Store} (h : HeldBy cfg s (it :: all) (it :: drafts)) (hd : drafts ⊆ all) :
    it ∉ drafts := by
  intro hm
  have hone := (h.draft it List.mem_cons_self).1
  have hpos := List.count_pos_iff.mpr (hd hm)
  rw [List.count_cons_self] at hone
  omega

/-- `store_item`, and the reference of the connection is given back. -/
theorem storeItem_held {comm : NRead} (h : HeldBy cfg.toSettings g.store (it :: all) (it :: drafts)) (hd : drafts ⊆ all)
    (hn : CallsNeed cfg.toSettings (storeCalls cfg.toSettings (env.alloc g.store) g.store it comm)) :
    HeldBy cfg.toSettings (doItemRemove cfg.toSettings (storeItem cfg env c g it comm).2.1.store it) all drafts :=
  (h.store (h.alone hd) hn).remove (h.alone hd)

theorem valueCalls_needs {s : Store} {comm : NRead} (hi : c.item = some it) (hc : nreadOfCmd c.cmd = some comm)
    (hn : CallsNeed cfg.toSettings (valueCalls cfg env c s)) :
    CallsNeed cfg.toSettings (storeCalls cfg.toSettings (env.alloc s) s it comm) := by
  unfold valueCalls at hn
  rwa [hi, hc] at hn

theorem incrInitial_unrecorded (h : HeldBy cfg.toSettings g.store all drafts)
    (hn : CallsNeed cfg.toSettings (initialCalls cfg env c g.store)) :
    Unrecorded cfg all drafts c (incrInitial cfg env c g (c.bodyField 8 8) (c.bodyField 16 4)).1
      (incrInitial cfg env c g (c.bodyField 8 8) (c.bodyField 16 4)).2 := by
  unfold incrInitial
  unfold initialCalls at hn
  by_cases hx : c.bodyField 16 4 = 0xffffffff
  · rw [if_pos hx]
    dsimp only
    exact unrecorded_writeBinError _ _ h
  · rw [if_neg hx] at hn ⊢
    dsimp only at hn
    have halloc := hn.head.guard
    have hstore := hn.tail
    rcases he : doItemAlloc cfg.toSettings (env.alloc g.store) g.store c.binKey 0
      (realtime cfg.processStarted g.store (c.bodyField 16 4)) INCR_MAX_STORAGE_LEN 0 with ⟨s, _ | it⟩
    · obtain rfl := doItemAlloc_none h.ok halloc he
      dsimp only
      exact unrecorded_writeBinError _ _ h
    · rw [he] at hstore
      have hnew := (h.alloc halloc he).write List.mem_cons_self 0 (decimal (c.bodyField 8 8) ++ [0])
      have hgone := storeItem_held (c := c) (g := { g with store := s.modify it (writeData 0 (decimal (c.bodyField 8 8) ++ [0])) })
        hnew h.subset hstore
      have hsame : ∀ cas, SameRefs c { (storeItem cfg env c
          { g with store := s.modify it (writeData 0 (decimal (c.bodyField 8 8) ++ [0])) } it .add).1 with cas := cas } :=
        fun _ => ⟨⟨rfl, rfl, rfl⟩, rfl⟩
      dsimp only
      split
      · refine ⟨(hsame _).trans (sameRefs_writeBinError ..), fun hs => ?_, hgone⟩
        exact absurd ((writeBinError_state _ _ _).symm.trans hs) (by decide)
      · exact unrecorded_writeBinResponse (hsame _) _ _ _ hgone

theorem completeIncrBin_unrecorded (h : HeldBy cfg.toSettings g.store all drafts)
    (hn : CallsNeed cfg.toSettings (incrCalls cfg env c g)) :
    Unrecorded cfg all drafts c (completeIncrBin cfg env c g).1 (completeIncrBin cfg env c g).2 := by
  unfold incrCalls at hn
  dsimp only at hn
  have hd := h.delta hn.left
  have hnone := hn.right
  unfold completeIncrBin
  dsimp only
  rcases he : addDelta cfg env g c.binKey (c.cmd = CMD_INCREMENT) (UInt64.ofNat (c.bodyField 0 8)) c.binaryHeader.cas with ⟨g₁, r⟩
  have hg₁ : HeldBy cfg.toSettings g₁.store all drafts := by
    have hstore := congrArg (·.1.store) he
    rw [← hstore]
    exact hd
  rw [he] at hnone
  dsimp only at hnone ⊢
  cases hr : r.result with
  | OK =>
    dsimp only
    split
    · have hsame : SameRefs c { c with cas := (r.it.map fun it => itemGetCas (g₁.store.mem it)).getD 0 } := ⟨⟨rfl, rfl, rfl⟩, rfl⟩
      exact unrecorded_writeBinResponse hsame _ _ _ hg₁
    · exact unrecorded_writeBinResponse (.refl c) _ _ _ hg₁
  | NON_NUMERIC | EOM | DELTA_ITEM_CAS_MISMATCH =>
    dsimp only
    exact unrecorded_writeBinError _ _ hg₁
  | DELTA_ITEM_NOT_FOUND =>
    rw [if_pos hr] at hnone
    exact incrInitial_unrecorded hg₁ hnone

/-- The item that a value was read to is given back. -/
structure GivenBack (cfg : Config) (all drafts : List Ptr) (c c' : Conn) (g' : Globals) : Prop where
  list : SameList c c'
  item : c'.item = none
  settled : Settled c'
  held : HeldBy cfg.toSettings g'.store all drafts

theorem GivenBack.keeps (h : GivenBack cfg (c.listed ++ others) drafts c c' g') : Keeps cfg others drafts [] c c' g' := by
  refine ⟨?_, .of_state h.settled.not_nread, fun hc _ => ?_⟩
  · rw [draft_nil h.settled.not_nread, Conn.refs, h.item, h.list.listed]
    exact h.held
  · exact ⟨fun _ => h.item, fun hs => absurd hs h.settled.not_nread, fun hl => absurd (h.list.ileft.trans hc.ileft) hl⟩

theorem SameRefs.dropItem (h : SameRefs c c₁) : SameList c { c₁ with item := none } := ⟨h.ilist, h.icurr, h.ileft⟩

theorem completeNreadAscii_givenBack (hi : c.item = some it) (h : HeldBy cfg.toSettings g.store (it :: all) (it :: drafts))
    (hd : drafts ⊆ all)
    (hn : dataEnds (g.store.mem it) = true → CallsNeed cfg.toSettings (valueCalls cfg env c g.store))
    (he : completeNreadAscii cfg env c g = some (c', g')) : GivenBack cfg all drafts c c' g' := by
  have hsettled := (completeNreadAscii_finishes he).settled
  simp only [completeNreadAscii, hi, Option.bind_eq_bind, Option.bind_eq_some_iff, Option.some.injEq, exists_eq_left'] at he
  obtain ⟨⟨c1, g1⟩, h1, h2⟩ := he
  cases h2
  unfold storeBlock at h1
  split at h1
  · rename_i hends
    obtain ⟨comm, hcomm, h1⟩ := Option.bind_eq_some_iff.mp h1
    have hgone := storeItem_held (c := c) h hd (valueCalls_needs hi hcomm (hn hends))
    have hsame : SameRefs c (storeItem cfg env c g it comm).1 := .of_core (core_storeItem it comm)
    have hreply : SameRefs c c1 := hsame.trans (.of_core (storeReply_finishes h1).1)
    refine ⟨hreply.dropItem, rfl, hsettled, ?_⟩
    dsimp only
    rw [storeReply_store h1]
    exact hgone
  · cases h1
    exact ⟨(sameRefs_outString c _).dropItem, rfl, hsettled, (h.mono (List.subset_cons_self it drafts)).remove (h.alone hd)⟩

theorem HeldBy.ended {cfg : Settings} {s : Store} (h : HeldBy cfg s all drafts) (hd : it ∈ drafts) :
    HeldBy cfg (endedValue s it) all drafts := by
  have hwrite := h.write hd ((s.mem it).nbytes - 2) [CR, LF]
  rwa [← modify_congr (f := fun i => writeData (i.nbytes - 2) [CR, LF] i) rfl] at hwrite

theorem completeUpdateBin_givenBack (hi : c.item = some it) (h : HeldBy cfg.toSettings g.store (it :: all) (it :: drafts))
    (hd : drafts ⊆ all)
    (hn : CallsNeed cfg.toSettings (valueCalls cfg env c (endedValue g.store it)))
    (he : completeUpdateBin cfg env c g = some (c', g')) : GivenBack cfg all drafts c c' g' := by
  have hsettled := (completeUpdateBin_finishes he).settled
  simp only [completeUpdateBin, hi, Option.bind_eq_bind, Option.bind_eq_some_iff, Option.some.injEq, exists_eq_left'] at he
  obtain ⟨comm, hcomm, he⟩ := he
  cases he
  have hended := h.ended List.mem_cons_self
  have hgone := storeItem_held (c := c) (g := { g with store := endedValue g.store it }) hended hd (valueCalls_needs hi hcomm hn)
  refine ⟨?_, rfl, hsettled, hgone⟩
  have hsame : SameRefs c (storeItem cfg env c { g with store := endedValue g.store it } it comm).1 := .of_core (core_storeItem it comm)
  split
  · exact (hsame.trans (sameRefs_writeBinResponse ..)).dropItem
  · exact (hsame.trans (sameRefs_writeBinError ..)).dropItem
  · exact (hsame.trans (sameRefs_writeBinError ..)).dropItem
  · exact (hsame.trans (sameRefs_writeBinError ..)).dropItem

/-- The value of a SASL request stays in `c->item` until the next command. -/
theorem processBinCompleteSaslAuth_unrecorded (hi : c.item = some it) (h : HeldBy cfg.toSettings g.store (it :: all) (it :: drafts))
    (he : processBinCompleteSaslAuth cfg c g = some (c', g')) : Unrecorded cfg (it :: all) drafts c c' g' := by
  have hsettled := (processBinCompleteSaslAuth_finishes he).settled
  have hstore : doItemUnlink cfg.toSettings g.store it (cfg.hash (g.store.key it)) = g.store :=
    unlink_draft (h.draft it List.mem_cons_self).2 _
  have hheld := h.mono (List.subset_cons_self it drafts)
  simp only [processBinCompleteSaslAuth, hi, Option.bind_eq_bind, Option.bind_eq_some_iff, Option.some.injEq, exists_eq_left',
    hstore] at he
  have hsame : ∀ calls, SameRefs c { initSaslConn cfg c with sasl := calls } := fun _ =>
    (sameRefs_initSaslConn cfg c).trans ⟨⟨rfl, rfl, rfl⟩, rfl⟩
  generalize initSaslConn cfg c = c1 at he hsame
  split at he
  · cases he
    exact ⟨(hsame _).trans (sameRefs_writeBinResponse ..), fun hs => absurd hs hsettled.not_nread, hheld⟩
  · cases he
    exact ⟨(hsame c1.sasl).trans ⟨⟨rfl, rfl, rfl⟩, rfl⟩, fun hs => absurd hs hsettled.not_nread, hheld⟩
  · cases he
    exact ⟨(hsame _).trans (sameRefs_writeBinError ..), fun hs => absurd hs hsettled.not_nread, hheld⟩

/-! ## What was read is complete -/

/-- `complete_nread` after extras and key. -/
theorem completeNreadConn_packet (hp : ReadsPacket c) (h : HeldBy cfg.toSettings g.store all drafts) (hn : CallsNeed cfg.toSettings (blockCalls cfg env c g))
    (he : completeNreadConn cfg env c g = some (c', g')) : Takes cfg all drafts c c' g' := by
  have hsub := hp.substate
  simp only [completeNreadConn, if_pos hp.binary, completeNreadBinary] at he
  simp only [blockCalls, if_pos hp.binary] at hn
  cases hs : c.substate with
  | noState =>
    rw [hs] at he
    cases he
  | readSetValue | readingSaslAuthData => simp [hs] at hsub
  | readingSetHeader =>
    rw [hs] at he hn
    dsimp only at he hn
    split at he
    · rw [if_pos ‹_›] at hn
      exact processBinAppendPrepend_takes h hn he
    · rw [if_neg ‹_›] at hn
      exact processBinUpdate_takes h hn he
  | readingGetKey =>
    rw [hs] at he hn
    have hget := processBinGet_takes h hn
    rwa [Option.some.inj he] at hget
  | readingTouchKey =>
    rw [hs] at he hn
    have htouch := processBinTouch_takes h hn
    rwa [Option.some.inj he] at htouch
  | readingStat =>
    rw [hs] at he
    have hstat := processBinStat_unrecorded (c := c) h env
    rw [Option.some.inj he] at hstat
    exact .inl hstat
  | readingDelHeader =>
    rw [hs] at he hn
    have hdelete := processBinDelete_unrecorded h hn
    rw [Option.some.inj he] at hdelete
    exact .inl hdelete
  | readingIncrHeader =>
    rw [hs] at he hn
    have hincr := completeIncrBin_unrecorded h hn
    rw [Option.some.inj he] at hincr
    exact .inl hincr
  | readFlushExptime =>
    rw [hs] at he
    cases he
    exact .inl (unrecorded_writeBinResponse (.refl c) _ _ _ (h.flush _))
  | readingSaslAuth =>
    rw [hs] at he hn
    refine processBinSaslAuth_takes h (fun hs => ?_) he
    dsimp only at hn
    rwa [if_neg hs] at hn

theorem completeNreadConn_item (hi : ReadsItem c it)
    (h : HeldBy cfg.toSettings g.store (it :: (c.listed ++ others)) (it :: drafts)) (hd : drafts ⊆ others)
    (hn : CallsNeed cfg.toSettings (blockCalls cfg env c g)) (he : completeNreadConn cfg env c g = some (c', g')) : Keeps cfg others drafts [] c c' g' := by
  have hall : drafts ⊆ c.listed ++ others := List.Subset.trans hd (List.subset_append_right _ _)
  by_cases hb : c.protocol = .binary
  · simp only [completeNreadConn, if_pos hb, completeNreadBinary] at he
    simp only [blockCalls, if_pos hb] at hn
    have hsub := hi.substate hb
    simp only [List.mem_cons, List.not_mem_nil, or_false] at hsub
    obtain hs | hs := hsub
    · rw [hs] at he hn
      rw [hi.item] at hn
      exact (completeUpdateBin_givenBack hi.item h hall hn he).keeps
    · rw [hs] at he
      have ha := processBinCompleteSaslAuth_unrecorded hi.item h he
      have hrefs : it :: (c.listed ++ others) = c.refs ++ others := by
        rw [Conn.refs, hi.item]
        rfl
      rw [hrefs] at ha
      exact ha.keeps (.inr (processBinCompleteSaslAuth_finishes he).settled)
  · simp only [completeNreadConn, if_neg hb] at he
    simp only [blockCalls, if_neg hb, hi.item] at hn
    refine (completeNreadAscii_givenBack hi.item h hall (fun hends => ?_) he).keeps
    rwa [if_pos hends] at hn

theorem completeNreadConn_keeps (hst : c.state = .nread) (hs : Steady c)
    (h : HeldBy cfg.toSettings g.store (c.refs ++ others) (c.draft ++ drafts)) (hd : drafts ⊆ others)
    (hn : CallsNeed cfg.toSettings (blockCalls cfg env c g)) (he : completeNreadConn cfg env c g = some (c', g')) :
    KeepsIf cfg others drafts c c' g' True := by
  obtain hp | ⟨it, hi⟩ := hs hst
  · rw [hp.draft] at h
    exact (completeNreadConn_packet hp h hn he).keepsIf hp.draft
  · rw [hi.draft hst, Conn.refs, hi.item] at h
    exact ⟨[], completeNreadConn_item hi h hd hn he, fun _ _ => rfl⟩

/-! ## Giving back -/

/-- What a connection refers to is not written to by another one. -/
theorem HeldBy.not_shared {cfg : Settings} {s : Store} {mine drafts' : List Ptr} (h : HeldBy cfg s (mine ++ others) drafts')
    (hd : drafts ⊆ others) (hd' : drafts ⊆ drafts') (hm : it ∈ mine) : it ∉ drafts := by
  intro hp
  have hone := (h.draft it (hd' hp)).1
  have hmine := List.count_pos_iff.mpr hm
  have hothers := List.count_pos_iff.mpr (hd hp)
  rw [List.count_append] at hone
  omega

theorem dropItem_held (h : HeldBy cfg.toSettings g.store (c.refs ++ others) drafts) (hd : drafts ⊆ others) :
    HeldBy cfg.toSettings (c.dropItem cfg.toSettings g).2.store (c.listed ++ others) drafts := by
  unfold Conn.refs at h
  unfold Conn.dropItem
  cases hi : c.item with
  | none =>
    rw [hi] at h
    exact h
  | some it =>
    rw [hi] at h
    exact HeldBy.remove h (h.not_shared hd (List.Subset.refl _) (List.mem_append_left _ (List.mem_singleton_self it)))

theorem dropItem_list (cfg : Settings) (c : Conn) (g : Globals) : SameList c (c.dropItem cfg g).1 ∧ (c.dropItem cfg g).1.item = none := by
  unfold Conn.dropItem
  cases hi : c.item with
  | none => exact ⟨⟨rfl, rfl, rfl⟩, hi⟩
  | some it => exact ⟨⟨rfl, rfl, rfl⟩, rfl⟩

theorem releaseIlist_held {cfg : Settings} {s : Store} {ilist : Nat → Ptr} {icurr ileft : Nat}
    (h : HeldBy cfg s ((List.range ileft).map (fun k => ilist (icurr + k)) ++ others) drafts) (hd : drafts ⊆ others) :
    HeldBy cfg (releaseIlist cfg ilist icurr ileft s) others drafts := by
  induction ileft generalizing icurr s with
  | zero => exact h
  | succ ileft ih =>
    have hlist : (List.range (ileft + 1)).map (fun k => ilist (icurr + k)) =
        ilist icurr :: (List.range ileft).map (fun k => ilist (icurr + 1 + k)) := by
      rw [List.range_succ_eq_map, List.map_cons, List.map_map]
      refine congrArg (ilist icurr :: ·) (List.map_congr_left fun k _ => ?_)
      exact congrArg ilist (by simp only [Nat.succ_eq_add_one]; omega)
    rw [hlist] at h
    exact ih (HeldBy.remove h (h.not_shared hd (List.Subset.refl _) List.mem_cons_self))

theorem dropIlist_held (h : HeldBy cfg.toSettings g.store (c.refs ++ others) drafts) (hd : drafts ⊆ others) :
    HeldBy cfg.toSettings (c.dropIlist cfg.toSettings g).2.store (c.item.toList ++ others) drafts := by
  refine releaseIlist_held (h.perm ?_) (List.Subset.trans hd (List.subset_append_right _ _))
  rw [Conn.refs, List.append_assoc]
  exact (List.perm_append_comm_assoc c.item.toList c.listed others)

theorem connCleanup_list (cfg : Settings) (c : Conn) (g : Globals) :
    (connCleanup cfg c g).1.item = none ∧ (connCleanup cfg c g).1.ileft = 0 := by
  unfold connCleanup
  dsimp only
  obtain ⟨_, hitem⟩ := dropItem_list cfg c g
  split <;> exact ⟨hitem, rfl⟩

theorem connCleanup_state {cfg : Settings} (hu : c.transport = .udp) : (connCleanup cfg c g).1.state = .read := by
  have htransport : (c.dropItem cfg g).1.transport = c.transport := by
    unfold Conn.dropItem
    split <;> rfl
  simp [connCleanup, Conn.dropIlist, htransport, hu]

theorem connCleanup_held (h : HeldBy cfg.toSettings g.store (c.refs ++ others) drafts) (hd : drafts ⊆ others) :
    HeldBy cfg.toSettings (connCleanup cfg.toSettings c g).2.store others drafts := by
  obtain ⟨hlist, hitem⟩ := dropItem_list cfg.toSettings c g
  have hitemless := dropItem_held h hd
  have hrefs : (c.dropItem cfg.toSettings g).1.refs = c.listed := by rw [Conn.refs, hitem, hlist.listed]; rfl
  rw [← hrefs] at hitemless
  have hlistless := dropIlist_held hitemless hd
  rw [hitem] at hlistless
  exact hlistless

/-! ## What a turn keeps -/

/-- Nothing that is said about references differs, the state apart. -/
structure SameBooks (c c' : Conn) : Prop extends SameRefs c c' where
  ritem : c'.ritem = c.ritem
  protocol : c'.protocol = c.protocol
  substate : c'.substate = c.substate

theorem SameBooks.steady (h : SameBooks c c') (hs : Steady c) (hst : c'.state = c.state) : Steady c' := by
  intro hn
  obtain hp | ⟨it, hi⟩ := hs (hst.symm.trans hn)
  · exact .inl ⟨h.ritem ▸ hp.packet, h.protocol.trans hp.binary, h.substate ▸ hp.substate⟩
  · exact .inr ⟨it, h.ritem ▸ hi.ritem, h.item.trans hi.item, fun hb => h.substate ▸ hi.substate (h.protocol.symm.trans hb)⟩

theorem SameBooks.draft (h : SameBooks c c') (hs : c'.state = c.state) : c'.draft = c.draft := by
  unfold Conn.draft
  rw [hs, h.ritem]

theorem AnswersOn.congr (h : AnswersOn c) (hs : c'.state = c.state) (hw : c'.writeAndGo = c.writeAndGo)
    (hp : c'.protocol = c.protocol) : AnswersOn c' := by
  have hnext : c'.next = c.next := by simp only [Conn.next, hs, hw, hp]
  rwa [AnswersOn, hs, hnext]

/-- The references of this connection and of the others are all there are, and what is read
and what is answered leads on. -/
structure Accounts (cfg : Config) (others drafts : List Ptr) (c : Conn) (g : Globals) : Prop where
  held : HeldBy cfg.toSettings g.store (c.refs ++ others) (c.draft ++ drafts)
  steady : Steady c
  next : AnswersOn c

theorem Accounts.rest (h : Accounts cfg others drafts c g) : HeldBy cfg.toSettings g.store (c.refs ++ others) drafts :=
  h.held.mono (List.subset_append_right _ _)

/-- A turn away from reading that changes no record. -/
theorem Accounts.away (h : Accounts cfg others drafts c g) (hr : SameRefs c c') (hs : c'.state ≠ .nread) (hn : AnswersOn c')
    (hg : g'.store = g.store) : Accounts cfg others drafts c' g' := by
  refine ⟨?_, .of_state hs, hn⟩
  rw [hr.refs, hg, draft_nil hs]
  exact h.rest

theorem Tidy.clean (h : Tidy c) (hs : c.state = .parseCmd ∨ c.state = .nread) : Clean c := by
  refine ⟨?_, ?_⟩
  · obtain hs | hs := hs
    · rw [draft_nil (by simp [hs]), h.item (by simp [hs])]
      rfl
    · exact h.packet hs
  · by_contra hl
    obtain hm | hm := h.listed hl <;> obtain hs | hs := hs <;> simp [hs] at hm

theorem Tidy.same (h : Tidy c) (hb : SameBooks c c') (hs : c'.state = c.state) : Tidy c' where
  item hr := hb.item.trans (h.item (hs ▸ hr))
  packet hn := by
    rw [hb.item, hb.draft hs]
    exact h.packet (hs ▸ hn)
  listed hl := by
    rw [hs]
    exact h.listed (hb.ileft ▸ hl)

theorem Tidy.closing (hs : c.state = .closing) : Tidy c := ⟨by simp [hs], by simp [hs], fun _ => .inr hs⟩

/-- A connection that refers to nothing. -/
theorem Tidy.of_empty (hi : c.item = none) (hl : c.ileft = 0) (hs : c.state ≠ .nread) : Tidy c :=
  ⟨fun _ => hi, fun hst => absurd hst hs, fun h => absurd hl h⟩

/-- Outside of an answer nothing is listed. -/
theorem Tidy.unlisted (h : Tidy c) (hm : c.state ≠ .mwrite) (hc : c.state ≠ .closing) : c.ileft = 0 := by
  by_contra hl
  obtain hs | hs := h.listed hl
  · exact hm hs
  · exact hc hs

/-- What a turn keeps: no reference is lost where the condition holds. -/
def TurnKeeps (cfg : Config) (others drafts : List Ptr) (s s' : Session) (remembers : Prop) : Prop :=
  ∃ lost, Accounts cfg (lost ++ others) drafts s'.c s'.g ∧ (Tidy s.c → remembers → lost = [] ∧ Tidy s'.c)

theorem SameBooks.refl (c : Conn) : SameBooks c c := ⟨.refl c, rfl, rfl, rfl⟩

section

variable {remembers : Prop} {inp : Input} (h : Accounts cfg others drafts s.c s.g)
include h

/-- Only what is said of other things changes. -/
theorem Accounts.same (hb : SameBooks s.c s'.c) (hs : s'.c.state = s.c.state) (hw : s'.c.writeAndGo = s.c.writeAndGo)
    (hg : s'.g.store = s.g.store) : TurnKeeps cfg others drafts s s' remembers := by
  refine ⟨[], ⟨?_, hb.steady h.steady hs, h.next.congr hs hw hb.protocol⟩, fun ht _ => ⟨rfl, ht.same hb hs⟩⟩
  rw [hb.refs, hb.draft hs, hg]
  exact h.held

theorem Accounts.unchanged : TurnKeeps cfg others drafts s s remembers := h.same (.refl s.c) rfl rfl rfl

theorem Accounts.closing (hr : SameRefs s.c s'.c) (hs : s'.c.state = .closing) (hg : s'.g.store = s.g.store) :
    TurnKeeps cfg others drafts s s' remembers :=
  ⟨[], h.away hr (by simp [hs]) (.of_state (by simp [hs]) (by simp [hs])) hg, fun _ _ => ⟨rfl, .closing hs⟩⟩

/-- A connection between two commands moves on. -/
theorem Accounts.between (hb : s.c.state ∈ [.waiting, .read, .parseCmd]) (hr : SameRefs s.c s'.c) (hs : s'.c.state ≠ .nread)
    (hn : AnswersOn s'.c) (hg : s'.g.store = s.g.store) : TurnKeeps cfg others drafts s s' remembers := by
  refine ⟨[], h.away hr hs hn hg, fun ht _ => ⟨rfl, .of_empty ?_ ?_ hs⟩⟩
  · refine hr.item.trans (ht.item ?_)
    simp only [List.mem_cons, List.not_mem_nil, or_false] at hb ⊢
    exact hb.imp id fun hb => hb.imp id .inl
  · exact hr.ileft.trans (ht.unlisted (by rintro hs; simp [hs] at hb) (by rintro hs; simp [hs] at hb))

theorem Accounts.resting (st : ConnState) (hb : s.c.state ∈ [.waiting, .read, .parseCmd]) (hr : SameRefs s.c s'.c)
    (hs : s'.c.state = st) (hst : st ∈ [.waiting, .read, .parseCmd]) (hg : s'.g.store = s.g.store) :
    TurnKeeps cfg others drafts s s' remembers := by
  simp only [List.mem_cons, List.not_mem_nil, or_false] at hst
  refine h.between hb hr ?_ (.of_state ?_ ?_) hg <;> rw [hs] <;> rintro rfl <;> simp at hst

/-- The item is given back when the next command is looked for. -/
theorem newCmdTurn_keeps (hs : s.c.state = .newCmd) (hd : drafts ⊆ others) (ht : s.newCmdTurn cfg inp = some s') :
    TurnKeeps cfg others drafts s s' remembers := by
  cases inp with
  | go =>
    simp only [Session.newCmdTurn] at ht
    split at ht
    · cases ht
      have hheld := dropItem_held (c := { s.c with cmd := -1, substate := .noState }) h.rest hd
      obtain ⟨hlist, hitem⟩ := dropItem_list cfg.toSettings { s.c with cmd := -1, substate := .noState } s.g
      have hlisted := hlist.listed
      unfold resetCmdHandler
      generalize Conn.dropItem cfg.toSettings { s.c with cmd := -1, substate := .noState } s.g = r at hheld hlist hitem hlisted
      obtain ⟨c₁, g₁⟩ := r
      dsimp only at hheld hlist hitem hlisted ⊢
      have hstate : (if 0 < c₁.rbuf.length then ConnState.parseCmd else .waiting) ∈ [.waiting, .parseCmd] := by split <;> decide
      generalize (if 0 < c₁.rbuf.length then ConnState.parseCmd else .waiting) = st at hstate
      simp only [List.mem_cons, List.not_mem_nil, or_false] at hstate
      have hne : st ≠ .nread := by rintro rfl; simp at hstate
      refine ⟨[], ⟨?_, .of_state hne, .of_state (by rintro rfl; simp at hstate) (by rintro rfl; simp at hstate)⟩,
        fun hn _ => ⟨rfl, .of_empty hitem ?_ hne⟩⟩
      · rw [draft_nil hne]
        have hrefs : ({ c₁ with state := st } : Conn).refs = s.c.listed := by
          rw [Conn.refs, show ({ c₁ with state := st } : Conn).item = none from hitem]
          exact hlisted
        rw [hrefs]
        exact hheld
      · exact hlist.ileft.trans (hn.unlisted (by simp [hs]) (by simp [hs]))
    · cases ht
      exact h.same (.refl s.c) rfl rfl rfl
  | eventFailed =>
    simp only [Session.newCmdTurn] at ht
    split at ht <;> cases ht
    · exact h.closing ⟨⟨rfl, rfl, rfl⟩, rfl⟩ rfl rfl
    · exact h.unchanged
  | event | data _ | wrote _ | again | error | noMemory =>
    cases ht
    exact h.unchanged

theorem waitingTurn_keeps (hs : s.c.state = .waiting) (ht : s.waitingTurn inp = some s') :
    TurnKeeps cfg others drafts s s' remembers := by
  cases inp with
  | go =>
    cases ht
    exact h.resting .read (by simp [hs]) ⟨⟨rfl, rfl, rfl⟩, rfl⟩ rfl (by decide) rfl
  | eventFailed =>
    cases ht
    exact h.closing ⟨⟨rfl, rfl, rfl⟩, rfl⟩ rfl rfl
  | event | data _ | wrote _ | again | error | noMemory =>
    cases ht
    exact h.unchanged

theorem readTurn_keeps (hs : s.c.state = .read) (ht : s.readTurn inp = some s') : TurnKeeps cfg others drafts s s' remembers := by
  have hr : s.c.state ∈ [.waiting, .read, .parseCmd] := by simp [hs]
  cases inp with
  | data bs =>
    simp only [Session.readTurn] at ht
    split_ifs at ht <;> cases ht
    · unfold tryReadUdp
      dsimp only
      have hout := sameRefs_outString s.c (ascii "SERVER_ERROR multi-packet request not supported")
      split_ifs
      · exact h.resting .waiting hr (hout.trans ⟨⟨rfl, rfl, rfl⟩, rfl⟩) rfl (by decide) rfl
      · exact h.resting .parseCmd hr ⟨⟨rfl, rfl, rfl⟩, rfl⟩ rfl (by decide) rfl
      · exact h.resting .waiting hr ⟨⟨rfl, rfl, rfl⟩, rfl⟩ rfl (by decide) rfl
    · exact h.closing ⟨⟨rfl, rfl, rfl⟩, rfl⟩ rfl rfl
    · exact h.resting .parseCmd hr ⟨⟨rfl, rfl, rfl⟩, rfl⟩ rfl (by decide) rfl
  | again =>
    cases ht
    exact h.resting .waiting hr ⟨⟨rfl, rfl, rfl⟩, rfl⟩ rfl (by decide) rfl
  | error =>
    simp only [Session.readTurn] at ht
    split at ht <;> cases ht
    · exact h.resting .waiting hr ⟨⟨rfl, rfl, rfl⟩, rfl⟩ rfl (by decide) rfl
    · exact h.closing ⟨⟨rfl, rfl, rfl⟩, rfl⟩ rfl rfl
  | noMemory =>
    simp only [Session.readTurn] at ht
    split at ht <;> cases ht
    · exact h.unchanged
    · have hout := sameRefs_outString { s.c with rbuf := [] } (ascii "SERVER_ERROR out of memory reading request")
      have hstate := outString_next { s.c with rbuf := [] } (ascii "SERVER_ERROR out of memory reading request")
      unfold readMemoryError
      generalize outString { s.c with rbuf := [] } (ascii "SERVER_ERROR out of memory reading request") = c₁ at hout hstate
      refine h.between hr ⟨⟨hout.ilist, hout.icurr, hout.ileft⟩, hout.item⟩ ?_ ?_ rfl
      · obtain hn | ⟨hn, _⟩ := hstate <;> simp [hn]
      · intro _
        obtain hn | ⟨hn, _⟩ := hstate <;> simp [Conn.next, hn]
  | event | go | wrote _ | eventFailed =>
    cases ht
    exact h.unchanged

end

/-! ## The next command -/

/-- The turn runs a command line. -/
@[mk_iff]
structure RunsLine (s : Session) (inp : Input) : Prop where
  running : s.stop = false
  state : s.c.state = .parseCmd
  go : inp = .go
  text : (negotiate s.c).protocol ≠ .binary
  ends : LF ∈ s.c.rbuf

instance (s : Session) (inp : Input) : Decidable (RunsLine s inp) := decidable_of_iff' _ (runsLine_iff s inp)

theorem negotiate_state (c : Conn) : (negotiate c).state = c.state := by
  unfold negotiate
  split <;> rfl

/-- What a command keeps, a turn that runs it keeps. -/
theorem KeepsIf.turn {remembers : Prop} (h : KeepsIf cfg others drafts c₁ c' g' remembers) (hr : SameRefs s.c c₁)
    (hs : s.c.state = .parseCmd) (hs₁ : c₁.state ≠ .nread) (hb : SameBooks c' s'.c) (hst : s'.c.state = c'.state)
    (hg : s'.g = g') (hn : AnswersOn s'.c) : TurnKeeps cfg others drafts s s' remembers := by
  obtain ⟨lost, hk, hl⟩ := h
  subst hg
  refine ⟨lost, ⟨?_, hb.steady hk.steady hst, hn⟩, fun ht hrem => ?_⟩
  · rw [hb.refs, hb.draft hst]
    exact hk.held
  · have hc := ht.clean (.inl hs)
    have hc₁ : Clean c₁ := by
      refine ⟨?_, hr.ileft.trans hc.ileft⟩
      rw [hr.item, hc.item, draft_nil hs₁, draft_nil (by simp [hs])]
    have hlost := hl hc₁ hrem
    exact ⟨hlost, (hk.tidy hc₁ hlost).same hb hst⟩

theorem parseTurn_next (hst : s.stop = false) (hs : s.c.state = .parseCmd) (ht : s.parseTurn cfg env .go = some s') :
    AnswersOn s'.c := by
  rw [← turn_parseCmd hst hs] at ht
  by_cases hl : StaysNext cfg s
  · obtain ⟨s₁, ht₁, hs₁⟩ := hl.turn env
    obtain rfl : s₁ = s' := Option.some.inj (ht₁.symm.trans ht)
    exact .of_state (by simp [hs₁]) (by simp [hs₁])
  · exact (parseTurn_proceeds hst hs hl ht).next

theorem tryReadBinary_cases (cfg : Config) (c : Conn) (g : Globals) : tryReadBinary cfg c g = ⟨c, g, true, []⟩ ∨
    (∃ h, tryReadBinary cfg c g = ⟨{ c with binaryHeader := h, state := .closing }, g, false, []⟩) ∨
    ∃ h rbuf, tryReadBinary cfg c g = ⟨{ dispatchBinCommand cfg (startRequest c h) with rbuf := rbuf }, g, false, [.request h]⟩ := by
  unfold tryReadBinary
  dsimp only
  split
  · exact .inl rfl
  · split
    · exact .inr (.inl ⟨_, rfl⟩)
    · exact .inr (.inr ⟨_, _, rfl⟩)

theorem parseTurn_keeps {inp : Input} (hst : s.stop = false) (hs : s.c.state = .parseCmd) (h : Accounts cfg others drafts s.c s.g)
    (hn : RunsLine s inp → CallsNeed cfg.toSettings (lineCalls cfg env { negotiate s.c with out := [] } s.g (tokenizeCommand (commandLine s))))
    (ht : s.parseTurn cfg env inp = some s') :
    TurnKeeps cfg others drafts s s' (RunsLine s inp → LineRemembers cfg s.g (tokenizeCommand (commandLine s))) := by
  have hat : s.c.state ∈ [.waiting, .read, .parseCmd] := by simp [hs]
  cases inp with
  | go =>
    have hnext := parseTurn_next hst hs ht
    obtain ⟨p, hp, rfl⟩ := Option.map_eq_some_iff.mp ht
    have hsame := sameRefs_negotiate s.c
    have hstate : (negotiate s.c).state ≠ .nread := by simp [negotiate_state, hs]
    have hheld := h.rest
    rw [← hsame.refs] at hheld
    have hrbuf := (negotiate_same s.c).1
    unfold tryReadCommand at hp
    dsimp only at hp hnext ⊢
    by_cases hb : (negotiate s.c).protocol = .binary
    · rw [if_pos hb] at hp
      obtain rfl := Option.some.inj hp
      obtain he | ⟨hdr, he⟩ | ⟨hdr, rbuf, he⟩ := tryReadBinary_cases cfg (negotiate s.c) s.g
      · rw [he]
        exact h.resting .waiting hat (hsame.trans ⟨⟨rfl, rfl, rfl⟩, rfl⟩) rfl (by decide) rfl
      · rw [he]
        exact h.closing (hsame.trans ⟨⟨rfl, rfl, rfl⟩, rfl⟩) rfl rfl
      · rw [he] at hnext ⊢
        dsimp only at hnext ⊢
        rw [if_neg Bool.false_ne_true] at hnext ⊢
        have ha := dispatchBinCommand_unrecorded (c := startRequest (negotiate s.c) hdr) hb hheld
        have hkeeps : KeepsIf cfg others drafts (startRequest (negotiate s.c) hdr) _ s.g
            (RunsLine s .go → LineRemembers cfg s.g (tokenizeCommand (commandLine s))) := ha.keepsIf (draft_nil hstate)
        exact hkeeps.turn (hsame.trans ⟨⟨rfl, rfl, rfl⟩, rfl⟩) hs hstate ⟨⟨⟨rfl, rfl, rfl⟩, rfl⟩, rfl, rfl, rfl⟩ rfl rfl hnext
    · rw [if_neg hb] at hp
      by_cases hlf : LF ∈ s.c.rbuf
      · have hruns : RunsLine s .go := ⟨hst, hs, rfl, hb, hlf⟩
        have hd := dropWhile_nextLine hlf
        rw [← hrbuf] at hd
        have hline : cText (chopLine ((negotiate s.c).rbuf.takeWhile (· != LF))) = commandLine s := by
          rw [hrbuf]
          rfl
        rw [tryReadAscii_line hd, hline] at hp
        obtain ⟨⟨c₂, g₂, rtn⟩, hproc, rfl⟩ := Option.map_eq_some_iff.mp hp
        obtain ⟨lost, hk, hl⟩ := processCommand_keeps (c := { negotiate s.c with out := [] }) hb hstate hheld (hn hruns) hproc
        have hkeeps : KeepsIf cfg others drafts { negotiate s.c with out := [] } c₂ g₂
            (RunsLine s .go → LineRemembers cfg s.g (tokenizeCommand (commandLine s))) :=
          ⟨lost, hk, fun hc hr => hl hc (hr hruns)⟩
        exact hkeeps.turn (hsame.trans ⟨⟨rfl, rfl, rfl⟩, rfl⟩) hs hstate ⟨⟨⟨rfl, rfl, rfl⟩, rfl⟩, rfl, rfl, rfl⟩ rfl rfl hnext
      · have hd : (negotiate s.c).rbuf.dropWhile (· != LF) = [] := by
          rw [hrbuf, List.dropWhile_eq_nil_iff]
          exact fun b hb => bne_iff_ne.mpr fun h => hlf (h ▸ hb)
        rw [tryReadAscii_no_line hd] at hp
        split at hp <;> cases hp
        · exact h.closing (hsame.trans ⟨⟨rfl, rfl, rfl⟩, rfl⟩) rfl rfl
        · exact h.resting .waiting hat (hsame.trans ⟨⟨rfl, rfl, rfl⟩, rfl⟩) rfl (by decide) rfl
  | event | data _ | wrote _ | again | error | noMemory | eventFailed =>
    cases ht
    exact h.unchanged

/-! ## Reading, swallowing, writing -/

/-- The bytes of a value go to an item that no one else refers to. -/
theorem receive_keeps (hst : c.state = .nread) (h : Accounts cfg others drafts c g) (bs rbuf : Bytes) :
    Accounts cfg others drafts { (receive c g bs).1 with rbuf := rbuf } (receive c g bs).2 ∧
      (Tidy c → Tidy { (receive c g bs).1 with rbuf := rbuf }) := by
  obtain hp | ⟨it, hi⟩ := h.steady hst
  · obtain ⟨got, hr⟩ := hp.packet
    have hp' : ReadsPacket { c with rlbytes := c.rlbytes - bs.length, ritem := .packet (got ++ bs), rbuf := rbuf } :=
      ⟨⟨_, rfl⟩, hp.binary, hp.substate⟩
    have hheld := h.held
    rw [hp.draft, ← hp'.draft] at hheld
    simp only [receive, hr]
    refine ⟨⟨hheld, fun _ => .inl hp', h.next⟩, fun hn => ⟨hn.item, fun _ => ?_, hn.listed⟩⟩
    exact ((hn.packet hst).trans hp.draft).trans hp'.draft.symm
  · obtain ⟨off, hr⟩ := hi.ritem
    have hi' : ReadsItem { c with rlbytes := c.rlbytes - bs.length, ritem := .item it (off + bs.length), rbuf := rbuf } it :=
      ⟨⟨_, rfl⟩, hi.item, hi.substate⟩
    have hheld := h.held
    rw [hi.draft hst] at hheld
    have hwritten := hheld.write (List.mem_append_left _ (List.mem_singleton_self it)) off bs
    rw [← hi'.draft hst] at hwritten
    simp only [receive, hr]
    refine ⟨⟨hwritten, fun _ => .inr ⟨it, hi'⟩, h.next⟩, fun hn => ⟨hn.item, fun _ => ?_, hn.listed⟩⟩
    exact ((hn.packet hst).trans (hi.draft hst)).trans (hi'.draft hst).symm

section

variable {remembers : Prop} {inp : Input} (h : Accounts cfg others drafts s.c s.g)
include h

theorem nreadTurn_keeps (hs : s.c.state = .nread) (hd : drafts ⊆ others)
    (hn : s.c.rlbytes = 0 → inp = .go → CallsNeed cfg.toSettings (blockCalls cfg env s.c s.g)) (ht : s.nreadTurn cfg env inp = some s') :
    TurnKeeps cfg others drafts s s' remembers := by
  have hreceived : ∀ bs rbuf, s'.c = { (receive s.c s.g bs).1 with rbuf := rbuf } → s'.g = (receive s.c s.g bs).2 →
      TurnKeeps cfg others drafts s s' remembers := by
    intro bs rbuf hc hg
    obtain ⟨ha, htidy⟩ := receive_keeps hs h bs rbuf
    rw [← hc, ← hg] at ha
    rw [← hc] at htidy
    exact ⟨[], ha, fun hn _ => ⟨rfl, htidy hn⟩⟩
  cases inp with
  | go =>
    simp only [Session.nreadTurn] at ht
    split_ifs at ht with hz hr hneg
    · obtain ⟨⟨c₂, g₂⟩, hc, ht⟩ := Option.map_eq_some_iff.mp ht
      cases ht
      obtain ⟨lost, hk, hl⟩ := completeNreadConn_keeps hs h.steady h.held hd (hn hz rfl) hc
      refine ⟨lost, ⟨hk.held, hk.steady, (completeNreadConn_proceeds hc).next⟩, fun hn _ => ?_⟩
      have hclean := hn.clean (.inr hs)
      have hlost := hl hclean trivial
      exact ⟨hlost, hk.tidy hclean hlost⟩
    · cases ht
      exact h.unchanged
    · cases ht
      exact hreceived _ _ rfl rfl
  | data bs =>
    simp only [Session.nreadTurn] at ht
    split_ifs at ht <;> cases ht
    · exact h.unchanged
    · exact h.closing ⟨⟨rfl, rfl, rfl⟩, rfl⟩ rfl rfl
    · exact h.unchanged
    · exact hreceived bs (receive s.c s.g bs).1.rbuf rfl rfl
  | again =>
    simp only [Session.nreadTurn] at ht
    split at ht <;> cases ht
    · exact h.unchanged
    · exact h.same (.refl s.c) rfl rfl rfl
  | error | eventFailed =>
    simp only [Session.nreadTurn] at ht
    split at ht <;> cases ht
    · exact h.unchanged
    · exact h.closing ⟨⟨rfl, rfl, rfl⟩, rfl⟩ rfl rfl
  | event | wrote _ | noMemory =>
    cases ht
    exact h.unchanged

theorem swallowTurn_keeps (hs : s.c.state = .swallow) (ht : s.swallowTurn inp = some s') :
    TurnKeeps cfg others drafts s s' remembers := by
  cases inp with
  | go =>
    simp only [Session.swallowTurn] at ht
    split_ifs at ht <;> cases ht
    · refine ⟨[], h.away ⟨⟨rfl, rfl, rfl⟩, rfl⟩ (by simp [Session.setState])
        (.of_state (by simp [Session.setState]) (by simp [Session.setState])) rfl, fun hn _ => ⟨rfl, ?_⟩⟩
      have hl := hn.unlisted (by simp [hs]) (by simp [hs])
      exact ⟨by simp [Session.setState], by simp [Session.setState], fun h => absurd hl h⟩
    · exact h.unchanged
    · exact h.same ⟨⟨⟨rfl, rfl, rfl⟩, rfl⟩, rfl, rfl, rfl⟩ rfl rfl rfl
  | data bs =>
    simp only [Session.swallowTurn] at ht
    split_ifs at ht <;> cases ht
    · exact h.unchanged
    · exact h.closing ⟨⟨rfl, rfl, rfl⟩, rfl⟩ rfl rfl
    · exact h.unchanged
    · exact h.same ⟨⟨⟨rfl, rfl, rfl⟩, rfl⟩, rfl, rfl, rfl⟩ rfl rfl rfl
  | again =>
    simp only [Session.swallowTurn] at ht
    split at ht <;> cases ht
    · exact h.unchanged
    · exact h.same (.refl s.c) rfl rfl rfl
  | error | eventFailed =>
    simp only [Session.swallowTurn] at ht
    split at ht <;> cases ht
    · exact h.unchanged
    · exact h.closing ⟨⟨rfl, rfl, rfl⟩, rfl⟩ rfl rfl
  | event | wrote _ | noMemory =>
    cases ht
    exact h.unchanged

end

/-- The socket of a packet does not take an answer. -/
@[mk_iff]
structure SendFails (s : Session) (inp : Input) : Prop where
  running : s.stop = false
  state : s.c.state = .write ∨ s.c.state = .mwrite
  left : s.c.out ≠ []
  udp : s.c.transport = .udp
  error : inp = .error

instance (s : Session) (inp : Input) : Decidable (SendFails s inp) := decidable_of_iff' _ (sendFails_iff s inp)

theorem refs_eq_nil : c.refs = [] ↔ c.item = none ∧ c.ileft = 0 := by
  simp [Conn.refs, Conn.listed]

theorem transmitComplete_keeps {remembers : Prop} (h : Accounts cfg others drafts s.c s.g) (hd : drafts ⊆ others)
    (hs : s.c.state = .write ∨ s.c.state = .mwrite) : TurnKeeps cfg others drafts s (s.transmitComplete cfg) remembers := by
  have hnext := h.next hs
  have hstate : ∀ st : ConnState, st ∈ [.newCmd, .swallow, .closing] → st ≠ .nread ∧ st ≠ .write ∧ st ≠ .mwrite ∧
      st ∉ [.waiting, .read, .parseCmd, .closed] := by decide
  unfold Session.transmitComplete
  by_cases hm : s.c.state = .mwrite
  · have hgo : s.c.next = if s.c.protocol = .binary then s.c.writeAndGo else .newCmd := by
      unfold Conn.next
      by_cases hb : s.c.protocol = .binary <;> simp [hm, hb]
    rw [hgo] at hnext
    obtain ⟨hread, hwrite, hmwrite, hrest⟩ := hstate _ hnext
    have hheld := dropIlist_held h.rest hd
    rw [if_pos hm]
    simp only [Conn.dropIlist] at hheld ⊢
    refine ⟨[], ⟨?_, .of_state hread, .of_state hwrite hmwrite⟩, fun _ _ => ⟨rfl, ?_⟩⟩
    · rw [draft_nil hread, Conn.refs, listed_nil rfl, List.append_nil]
      exact hheld
    · exact ⟨fun hr => absurd hr hrest, fun hn => absurd hn hread, fun hl => absurd rfl hl⟩
  · have hgo : s.c.next = s.c.writeAndGo := by simp [Conn.next, hm]
    rw [hgo] at hnext
    obtain ⟨hread, hwrite, hmwrite, hrest⟩ := hstate _ hnext
    rw [if_neg hm]
    refine ⟨[], h.away ⟨⟨rfl, rfl, rfl⟩, rfl⟩ hread (.of_state hwrite hmwrite) rfl, fun hn _ => ⟨rfl, ?_⟩⟩
    have hl := hn.unlisted hm (by simp [hs.resolve_right hm])
    exact ⟨fun hr => absurd hr hrest, fun hn => absurd hn hread, fun h => absurd hl h⟩

theorem writeTurn_keeps {inp : Input} (hst : s.stop = false) (h : Accounts cfg others drafts s.c s.g) (hd : drafts ⊆ others)
    (hs : s.c.state = .write ∨ s.c.state = .mwrite) (ht : s.writeTurn cfg inp = some s') :
    TurnKeeps cfg others drafts s s' (SendFails s inp → s.c.refs = []) := by
  cases inp with
  | go =>
    simp only [Session.writeTurn] at ht
    split at ht <;> cases ht
    · exact transmitComplete_keeps h hd hs
    · exact h.unchanged
  | wrote n =>
    simp only [Session.writeTurn] at ht
    split at ht <;> cases ht
    · exact h.unchanged
    · exact h.same ⟨⟨⟨rfl, rfl, rfl⟩, rfl⟩, rfl, rfl, rfl⟩ rfl rfl rfl
  | again =>
    simp only [Session.writeTurn] at ht
    split at ht <;> cases ht
    · exact h.unchanged
    · exact h.same (.refl s.c) rfl rfl rfl
  | eventFailed =>
    simp only [Session.writeTurn] at ht
    split at ht <;> cases ht
    · exact h.unchanged
    · exact h.closing ⟨⟨rfl, rfl, rfl⟩, rfl⟩ rfl rfl
  | error =>
    simp only [Session.writeTurn] at ht
    by_cases ho : s.c.out = []
    · rw [if_pos ho] at ht
      cases ht
      exact h.unchanged
    · rw [if_neg ho] at ht
      cases ht
      by_cases hu : s.c.transport = .udp
      · rw [if_pos hu]
        refine ⟨[], h.away ⟨⟨rfl, rfl, rfl⟩, rfl⟩ (by simp [Session.setState])
          (.of_state (by simp [Session.setState]) (by simp [Session.setState])) rfl, fun _ hr => ⟨rfl, ?_⟩⟩
        obtain ⟨hi, hl⟩ := refs_eq_nil.mp (hr ⟨hst, hs, ho, hu, rfl⟩)
        exact .of_empty hi hl (by simp [Session.setState])
      · rw [if_neg hu]
        exact h.closing ⟨⟨rfl, rfl, rfl⟩, rfl⟩ rfl rfl
  | event | data _ | noMemory =>
    cases ht
    exact h.unchanged

theorem closingTurn_keeps {remembers : Prop} {inp : Input} (h : Accounts cfg others drafts s.c s.g) (hd : drafts ⊆ others)
    (ht : s.closingTurn cfg inp = some s') : TurnKeeps cfg others drafts s s' remembers := by
  cases inp with
  | go =>
    have hheld := connCleanup_held h.rest hd
    obtain ⟨hi, hl⟩ := connCleanup_list cfg.toSettings s.c s.g
    have hgone : ∀ c' : Conn, c'.item = none → c'.ileft = 0 → c'.state ∈ [.read, .closed] → s'.c = c' →
        s'.g = (connCleanup cfg.toSettings s.c s.g).2 → TurnKeeps cfg others drafts s s' remembers := by
      rintro c' hi hl hs rfl hg
      have hne : s'.c.state ≠ .nread ∧ s'.c.state ≠ .write ∧ s'.c.state ≠ .mwrite := by
        simp only [List.mem_cons, List.not_mem_nil, or_false] at hs
        obtain hs | hs := hs <;> simp [hs]
      refine ⟨[], ⟨?_, .of_state hne.1, .of_state hne.2.1 hne.2.2⟩, fun _ _ => ⟨rfl, .of_empty hi hl hne.1⟩⟩
      rw [draft_nil hne.1, refs_eq_nil.mpr ⟨hi, hl⟩, hg]
      exact hheld
    by_cases hu : s.c.transport = .udp
    · simp only [Session.closingTurn, if_pos hu] at ht
      cases ht
      refine hgone _ hi hl ?_ rfl rfl
      rw [connCleanup_state hu]
      decide
    · simp only [Session.closingTurn, if_neg hu] at ht
      cases ht
      exact hgone { (connCleanup cfg.toSettings s.c s.g).1 with state := .closed } hi hl (by simp) rfl rfl
  | event | data _ | wrote _ | again | error | noMemory | eventFailed =>
    cases ht
    exact h.unchanged

/-! ## A turn -/

/-- The calls of a turn: those of the command line that it runs, or of the data that is complete. -/
def turnCalls (cfg : Config) (env : Env) (s : Session) (inp : Input) : List StoreCall :=
  if RunsLine s inp then lineCalls cfg env { negotiate s.c with out := [] } s.g (tokenizeCommand (commandLine s))
  else if s.stop = false ∧ s.c.state = .nread ∧ s.c.rlbytes = 0 ∧ inp = .go then blockCalls cfg env s.c s.g
  else []

theorem turnCalls_line {inp : Input} (h : RunsLine s inp) :
    turnCalls cfg env s inp = lineCalls cfg env { negotiate s.c with out := [] } s.g (tokenizeCommand (commandLine s)) := if_pos h

theorem turnCalls_block (hs : s.stop = false) (hst : s.c.state = .nread) (hz : s.c.rlbytes = 0) :
    turnCalls cfg env s .go = blockCalls cfg env s.c s.g := by
  unfold turnCalls
  rw [if_neg, if_pos ⟨hs, hst, hz, rfl⟩]
  intro hr
  exact absurd (hst.symm.trans hr.state) (by decide)

/-- The turn does not forget references: it runs no retrieval that stops after it has found
items, and no packet fails to be sent while items are referred to. -/
@[mk_iff]
structure TurnRemembers (cfg : Config) (s : Session) (inp : Input) : Prop where
  line : RunsLine s inp → LineRemembers cfg s.g (tokenizeCommand (commandLine s))
  sent : SendFails s inp → s.c.refs = []

instance (cfg : Config) (s : Session) (inp : Input) : Decidable (TurnRemembers cfg s inp) :=
  decidable_of_iff' _ (turnRemembers_iff cfg s inp)

theorem TurnKeeps.imp {p q : Prop} (h : TurnKeeps cfg others drafts s s' p) (hq : q → p) : TurnKeeps cfg others drafts s s' q := by
  obtain ⟨lost, ha, hl⟩ := h
  exact ⟨lost, ha, fun ht hp => hl ht (hq hp)⟩

/-- A turn keeps count of the references, and loses none where it remembers them. -/
theorem turn_keeps {inp : Input} (h : Accounts cfg others drafts s.c s.g) (hd : drafts ⊆ others)
    (hn : CallsNeed cfg.toSettings (turnCalls cfg env s inp)) (ht : s.turn cfg env inp = some s') :
    TurnKeeps cfg others drafts s s' (TurnRemembers cfg s inp) := by
  unfold Session.turn at ht
  cases hst : s.stop with
  | true =>
    rw [hst, if_pos rfl] at ht
    cases inp with
    | event =>
      cases ht
      exact h.same (.refl s.c) rfl rfl rfl
    | go | data _ | wrote _ | again | error | noMemory | eventFailed =>
      cases ht
      exact h.unchanged
  | false =>
    rw [hst, if_neg Bool.false_ne_true] at ht
    cases hs : s.c.state with
    | newCmd => exact newCmdTurn_keeps h hs hd (by rwa [hs] at ht)
    | waiting => exact waitingTurn_keeps h hs (by rwa [hs] at ht)
    | read => exact readTurn_keeps h hs (by rwa [hs] at ht)
    | parseCmd =>
      have hline : RunsLine s inp → CallsNeed cfg.toSettings (lineCalls cfg env { negotiate s.c with out := [] } s.g (tokenizeCommand (commandLine s))) :=
        fun hr => turnCalls_line hr ▸ hn
      exact (parseTurn_keeps hst hs h hline (by rwa [hs] at ht)).imp (·.line)
    | nread =>
      refine nreadTurn_keeps h hs hd (fun hz hgo => ?_) (by rwa [hs] at ht)
      rw [hgo, turnCalls_block hst hs hz] at hn
      exact hn
    | swallow => exact swallowTurn_keeps h hs (by rwa [hs] at ht)
    | write => exact (writeTurn_keeps hst h hd (.inl hs) (by rwa [hs] at ht)).imp (·.sent)
    | mwrite => exact (writeTurn_keeps hst h hd (.inr hs) (by rwa [hs] at ht)).imp (·.sent)
    | closing => exact closingTurn_keeps h hd (by rwa [hs] at ht)
    | closed =>
      rw [hs] at ht
      cases ht
      exact h.unchanged

/-- An answer that has been sent leads on to one of three states. -/
theorem answersOn_turn {s : Session} {inp : Input} (h : AnswersOn s.c) (ht : s.turn cfg env inp = some s') : AnswersOn s'.c := by
  by_cases hat : AtCommand s
  · have hstate := hat
    simp only [AtCommand, List.mem_cons, List.not_mem_nil, or_false] at hstate
    unfold Session.turn at ht
    split at ht
    · cases inp <;> cases ht <;> exact h
    · next hst =>
      have hst := Bool.eq_false_iff.mpr hst
      obtain hs | hs | hs := hstate <;> rw [hs] at ht
      · exact (waitingTurn_parsable ht ⟨fun hp => absurd (hs.symm.trans hp) (fun h => by cases h), h⟩).next
      · exact (readTurn_parsable ht ⟨fun hp => absurd (hs.symm.trans hp) (fun h => by cases h), h⟩).next
      · cases inp with
        | go => exact parseTurn_next hst hs ht
        | event | data _ | wrote _ | again | error | noMemory | eventFailed =>
          cases ht
          exact h
  · exact ((turn_busy hat ht).parsable ⟨fun hp => absurd (by simp [AtCommand, hp]) hat, h⟩ hat).next

end RamCube
