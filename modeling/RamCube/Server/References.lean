import RamCube.Server.Parsing
import RamCube.Store.Holders

/-! # The references of a connection (memcached.c)

A connection records the items it refers to in `c->item` and, for a retrieval that is being
sent, in `c->ilist`. A turn takes and gives back references, and records what it keeps; a
reference that is neither given back nor recorded is lost. -/
namespace RamCube

variable {cfg : Config} {env : Env} {c c' c₁ : Conn} {g g' : Globals} {t : Tokens} {all others drafts lost : List Ptr} {it : Ptr}

/-! ## What is recorded -/

namespace Conn

/-- `ilist[icurr .. icurr + ileft)` -/
def listed (c : Conn) : List Ptr := (List.range c.ileft).map fun k => c.ilist (c.icurr + k)

/-- The references in `c->item` and `c->ilist`. -/
def refs (c : Conn) : List Ptr := c.item.toList ++ c.listed

/-- The item that a data block is read to. -/
def draft (c : Conn) : List Ptr :=
  match c.state, c.ritem with
  | .nread, .item it _ => [it]
  | _, _ => []

end Conn

/-- Extras and a key are read. -/
structure ReadsPacket (c : Conn) : Prop where
  packet : ∃ got, c.ritem = .packet got
  binary : c.protocol = .binary
  substate : c.substate ∉ [.readSetValue, .readingSaslAuthData]

/-- A value is read to the item in `c->item`. -/
structure ReadsItem (c : Conn) (it : Ptr) : Prop where
  ritem : ∃ off, c.ritem = .item it off
  item : c.item = some it
  substate : c.protocol = .binary → c.substate ∈ [.readSetValue, .readingSaslAuthData]

/-- What is read is what the command goes on with. -/
def Steady (c : Conn) : Prop := c.state = .nread → ReadsPacket c ∨ ∃ it, ReadsItem c it

theorem Steady.of_state (h : c.state ≠ .nread) : Steady c := fun hs => absurd hs h

theorem listed_nil (h : c.ileft = 0) : c.listed = [] := by
  unfold Conn.listed
  rw [h]
  rfl

theorem draft_nil (h : c.state ≠ .nread) : c.draft = [] := by
  unfold Conn.draft
  split
  · exact absurd ‹_› h
  · rfl

theorem ReadsPacket.draft (h : ReadsPacket c) : c.draft = [] := by
  obtain ⟨got, hr⟩ := h.packet
  unfold Conn.draft
  rw [hr]
  split
  · cases ‹ReadItem.packet got = _›
  · rfl

theorem ReadsItem.draft (h : ReadsItem c it) (hs : c.state = .nread) : c.draft = [it] := by
  obtain ⟨off, hr⟩ := h.ritem
  unfold Conn.draft
  rw [hs, hr]

/-- What is written to is referred to. -/
theorem Steady.draft_subset (h : Steady c) : c.draft ⊆ c.refs := by
  by_cases hs : c.state = .nread
  · obtain hp | ⟨it, hi⟩ := h hs
    · rw [hp.draft]
      exact List.nil_subset _
    · rw [hi.draft hs, Conn.refs, hi.item]
      exact List.subset_append_left _ _
  · rw [draft_nil hs]
    exact List.nil_subset _

/-- The list of a retrieval is the same. -/
structure SameList (c c' : Conn) : Prop where
  ilist : c'.ilist = c.ilist
  icurr : c'.icurr = c.icurr
  ileft : c'.ileft = c.ileft

theorem SameList.listed (h : SameList c c') : c'.listed = c.listed := by
  unfold Conn.listed
  rw [h.ilist, h.icurr, h.ileft]

theorem SameList.trans (h : SameList c c₁) (h' : SameList c₁ c') : SameList c c' :=
  ⟨h'.ilist.trans h.ilist, h'.icurr.trans h.icurr, h'.ileft.trans h.ileft⟩

/-- So is the item. -/
structure SameRefs (c c' : Conn) : Prop extends SameList c c' where
  item : c'.item = c.item

theorem SameRefs.refs (h : SameRefs c c') : c'.refs = c.refs := by
  unfold Conn.refs
  rw [h.item, h.listed]

theorem SameRefs.refl (c : Conn) : SameRefs c c := ⟨⟨rfl, rfl, rfl⟩, rfl⟩

theorem SameRefs.trans (h : SameRefs c c₁) (h' : SameRefs c₁ c') : SameRefs c c' :=
  ⟨h.toSameList.trans h'.toSameList, h'.item.trans h.item⟩

theorem SameRefs.of_core (h : c'.core = c.core) : SameRefs c c' :=
  ⟨⟨core_field Conn.ilist (fun _ => rfl) h, core_field Conn.icurr (fun _ => rfl) h,
    core_field Conn.ileft (fun _ => rfl) h⟩, core_field Conn.item (fun _ => rfl) h⟩

theorem sameRefs_outString (c : Conn) (str : Bytes) : SameRefs c (outString c str) := .of_core (core_outString c str)

theorem sameRefs_writeBinError (c : Conn) (err : BinStatus) (swallow : Int) : SameRefs c (writeBinError c err swallow) := by
  unfold writeBinError
  dsimp only
  split <;> exact ⟨⟨rfl, rfl, rfl⟩, rfl⟩

theorem sameRefs_setNoreplyMaybe (c : Conn) (t : Tokens) : SameRefs c (setNoreplyMaybe c t) := by
  unfold setNoreplyMaybe
  split <;> exact ⟨⟨rfl, rfl, rfl⟩, rfl⟩

theorem sameRefs_negotiate (c : Conn) : SameRefs c (negotiate c) := by
  unfold negotiate
  split <;> exact ⟨⟨rfl, rfl, rfl⟩, rfl⟩

/-! ## What a turn does to the references -/

/-- The connection refers to nothing but what it writes to. -/
structure Clean (c : Conn) : Prop where
  item : c.item.toList = c.draft
  ileft : c.ileft = 0

/-- Where a connection waits for a command, or is closed, it refers to nothing. -/
structure Tidy (c : Conn) : Prop where
  item : c.state ∈ [.waiting, .read, .parseCmd, .closed] → c.item = none
  packet : c.state = .nread → c.item.toList = c.draft
  listed : c.ileft ≠ 0 → c.state = .mwrite ∨ c.state = .closing

/-- The references after a turn are those that are recorded, those that are lost, and those of
the others. -/
structure Keeps (cfg : Config) (others drafts lost : List Ptr) (c c' : Conn) (g' : Globals) : Prop where
  held : HeldBy cfg.toSettings g'.store (c'.refs ++ (lost ++ others)) (c'.draft ++ drafts)
  steady : Steady c'
  tidy : Clean c → lost = [] → Tidy c'

/-- A command that records nothing new: it keeps no reference that it takes. -/
structure Unrecorded (cfg : Config) (all drafts : List Ptr) (c c' : Conn) (g' : Globals) : Prop where
  same : SameRefs c c'
  reads : c'.state = .nread → ReadsPacket c'
  held : HeldBy cfg.toSettings g'.store all drafts

theorem Unrecorded.draft (h : Unrecorded cfg all drafts c c' g') : c'.draft = [] := by
  by_cases hs : c'.state = .nread
  · exact (h.reads hs).draft
  · exact draft_nil hs

theorem Unrecorded.steady (h : Unrecorded cfg all drafts c c' g') : Steady c' := fun hs => .inl (h.reads hs)

theorem Settled.not_nread (h : Settled c) : c.state ≠ .nread := by
  obtain h | ⟨h | h, _⟩ := h <;> simp [h]

theorem Settled.not_resting (h : Settled c) : c.state ∉ [.waiting, .read, .parseCmd, .closed] := by
  obtain h | ⟨h | h, _⟩ := h <;> simp [h]

theorem Unrecorded.keeps (h : Unrecorded cfg (c.refs ++ others) drafts c c' g') (hd : c.draft = [] ∨ Settled c') :
    Keeps cfg others drafts [] c c' g' := by
  refine ⟨?_, h.steady, fun hc _ => ?_⟩
  · rw [h.same.refs, h.draft]
    exact h.held
  · have hleft : c'.ileft = 0 := h.same.ileft.trans hc.ileft
    obtain hd | hs := hd
    · have hitem : c'.item.toList = [] := by rw [h.same.item, hc.item, hd]
      exact ⟨fun _ => by simpa using hitem, fun _ => hitem.trans h.draft.symm, fun hl => absurd hleft hl⟩
    · exact ⟨fun hr => absurd hr hs.not_resting, fun hn => absurd hn hs.not_nread, fun hl => absurd hleft hl⟩

/-- A command that records one item in `c->item`. -/
structure Recorded (cfg : Config) (all drafts : List Ptr) (c c' : Conn) (g' : Globals) (it : Ptr) : Prop where
  list : SameList c c'
  item : c'.item = some it
  state : c'.state = .mwrite ∨ c'.state = .nread ∧ ReadsItem c' it
  held : HeldBy cfg.toSettings g'.store (it :: all) (c'.draft ++ drafts)

theorem Recorded.keeps (h : Recorded cfg (c.refs ++ others) drafts c c' g' it) : Keeps cfg others drafts c.item.toList c c' g' := by
  refine ⟨h.held.perm ?_, ?_, fun hc _ => ?_⟩
  · rw [Conn.refs, Conn.refs, h.item, h.list.listed, List.perm_iff_count]
    intro p
    simp only [List.count_append, List.count_cons, Option.toList_some, List.count_nil]
    omega
  · intro hs
    obtain hm | ⟨_, hi⟩ := h.state
    · rw [hs] at hm
      cases hm
    · exact .inr ⟨it, hi⟩
  · refine ⟨fun hs => ?_, fun hs => ?_, fun hl => absurd (h.list.ileft.trans hc.ileft) hl⟩
    · obtain hm | ⟨hm, _⟩ := h.state <;> simp [hm] at hs
    · obtain hm | ⟨_, hi⟩ := h.state
      · rw [hs] at hm
        cases hm
      · rw [hi.draft hs, hi.item]
        rfl

/-! ## What the commands of a line need -/

/-- The calls of `item_alloc`. -/
def itemAllocCalls (env : AllocEnv) (s : Store) (key : Bytes) (flags : Int) (exptime : UInt32) (nbytes : Int) : List StoreCall :=
  if 0 ≤ nbytes then [.alloc env s key flags exptime nbytes.toNat 0] else [.short s key flags nbytes]

/-- The calls at the start of a storage command: a set that gets no chunk looks its key up. -/
def updateCalls (cfg : Settings) (env : AllocEnv) (s : Store) (key : Bytes) (flags : Int) (exptime : UInt32) (nbytes : Int)
    (setting : Bool) : List StoreCall :=
  itemAllocCalls env s key flags exptime nbytes ++ match itemAlloc cfg env s key flags exptime nbytes with
  | some (s', none) => if setting then [.get s' key] else []
  | _ => []

/-- The words after the name of a retrieval. -/
def getKeys (t : Tokens) : List Bytes := (lineTokens (t.rest.getD []).length t).drop 1

/-- The lookups of a retrieval. -/
def getCalls (cfg : Settings) : List Bytes → Store → List StoreCall
  | [], _ => []
  | key :: keys, s => if KEY_MAX_LENGTH < key.length then [] else .get s key :: getCalls cfg keys (getItem cfg s key).1

/-- No key that is too long stops a retrieval that has found an item. -/
def NoneForgotten (cfg : Settings) : Bool → List Bytes → Store → Prop
  | _, [], _ => True
  | found, key :: keys, s =>
    if KEY_MAX_LENGTH < key.length then found = false
    else NoneForgotten cfg (found || (getItem cfg s key).2.isSome) keys (getItem cfg s key).1

instance decidableNoneForgotten (cfg : Settings) : (found : Bool) → (keys : List Bytes) → (s : Store) →
    Decidable (NoneForgotten cfg found keys s)
  | _, [], _ => .isTrue trivial
  | found, key :: keys, s =>
    if h : KEY_MAX_LENGTH < key.length then decidable_of_iff (found = false) (by rw [NoneForgotten, if_pos h])
    else
      have := decidableNoneForgotten cfg (found || (getItem cfg s key).2.isSome) keys (getItem cfg s key).1
      decidable_of_iff (NoneForgotten cfg (found || (getItem cfg s key).2.isSome) keys (getItem cfg s key).1)
        (by rw [NoneForgotten, if_neg h])

/-- The calls of `process_update_command`. -/
def updateLineCalls (cfg : Config) (env : Env) (g : Globals) (t : Tokens) (comm : NRead) (handleCas : Bool) : List StoreCall :=
  if KEY_MAX_LENGTH < (t.value 1).length then []
  else match updateArgs t, if handleCas then scanStrtoull (t.value 5) else .ok 0 with
  | .ok ((flags, exptime), n), .ok _ =>
    let vlen := asInt (n + 2)
    if vlen < 0 ∨ asInt (vlen - 2) < 0 then []
    else updateCalls cfg.toSettings (env.alloc g.store) g.store (t.value 1) (asInt flags.toNat)
      (realtime cfg.processStarted g.store (if exptime < 0 then REALTIME_MAXDELTA + 1 else exptime)) vlen (comm = .set)
  | _, _ => []

/-- The calls of `process_arithmetic_command`. -/
def arithmeticCalls (cfg : Config) (env : Env) (g : Globals) (t : Tokens) (incr : Bool) : List StoreCall :=
  if KEY_MAX_LENGTH < (t.value 1).length then []
  else match scanStrtoull (t.value 2) with
  | .ok delta => deltaCalls cfg.toSettings (env.alloc g.store) g.store (t.value 1) incr delta 0
  | _ => []

/-- The lookup of `process_delete_command`, unless the line is refused. -/
def deleteCalls (c : Conn) (g : Globals) (t : Tokens) : List StoreCall :=
  let holdIsZero := t.value 2 = ascii "0"
  let c := if 3 < t.ntokens then setNoreplyMaybe c t else c
  let setsNoreply := c.noreply = true
  if 3 < t.ntokens ∧ ¬(t.ntokens = 4 ∧ (holdIsZero ∨ setsNoreply) ∨ t.ntokens = 5 ∧ holdIsZero ∧ setsNoreply) then []
  else if KEY_MAX_LENGTH < (t.value 1).length then []
  else [.get g.store (t.value 1)]

/-- The lookup of `process_touch_command`. -/
def touchCalls (g : Globals) (t : Tokens) : List StoreCall :=
  if KEY_MAX_LENGTH < (t.value 1).length then []
  else match safeStrtol (t.value 2) with
  | .ok _ => [.get g.store (t.value 1)]
  | _ => []

/-- The calls of a command line. -/
def lineCalls (cfg : Config) (env : Env) (c : Conn) (g : Globals) (t : Tokens) : List StoreCall :=
  match handlerOf t with
  | .get _ => getCalls cfg.toSettings (getKeys t) g.store
  | .update comm handleCas => updateLineCalls cfg env g t comm handleCas
  | .arithmetic incr => arithmeticCalls cfg env g t incr
  | .delete => deleteCalls c g t
  | .touch => touchCalls g t
  | _ => []

/-! ## Text commands -/

theorem outString_state (c : Conn) (str : Bytes) : (outString c str).state ≠ .nread := by
  obtain h | h := outString_next c str
  · simp [h]
  · simp [h.1]

theorem unrecorded_outString (hc : SameRefs c c₁) (str : Bytes) (h : HeldBy cfg.toSettings g'.store all drafts) :
    Unrecorded cfg all drafts c (outString c₁ str) g' :=
  ⟨hc.trans (sameRefs_outString c₁ str), fun hs => absurd hs (outString_state c₁ str), h⟩

theorem unrecorded_writeAndFree (buf : Bytes) (h : HeldBy cfg.toSettings g'.store all drafts) :
    Unrecorded cfg all drafts c (writeAndFree c buf) g' :=
  ⟨.of_core rfl, fun hs => (by cases hs), h⟩

theorem HeldBy.not_draft {cfg : Settings} {s : Store} (h : HeldBy cfg s all drafts) (hl : (s.mem it).linked = true) :
    it ∉ drafts := by
  intro hd
  rw [(h.draft it hd).2] at hl
  cases hl

section

variable {cfg : Settings} {env : AllocEnv} {s s' : Store} {key : Bytes} {flags nbytes : Int} {exptime : UInt32}
  (h : HeldBy cfg s all drafts) (hn : CallsNeed cfg (itemAllocCalls env s key flags exptime nbytes))
include h hn

theorem itemAlloc_held (he : itemAlloc cfg env s key flags exptime nbytes = some (s', some it)) :
    HeldBy cfg s' (it :: all) (it :: drafts) := by
  unfold itemAlloc at he
  unfold itemAllocCalls at hn
  split at he
  · rw [if_pos ‹_›] at hn
    exact h.alloc hn.head.guard (Option.some.inj he)
  · split at he <;> cases he

theorem itemAlloc_same (he : itemAlloc cfg env s key flags exptime nbytes = some (s', none)) : s' = s := by
  unfold itemAlloc at he
  unfold itemAllocCalls at hn
  split at he
  · rw [if_pos ‹_›] at hn
    exact doItemAlloc_none h.ok hn.head.guard (Option.some.inj he)
  · split at he <;> cases he
    rfl

end

theorem updateCalls_lookup {cfg : Settings} {env : AllocEnv} {s s' : Store} {key : Bytes} {flags nbytes : Int} {exptime : UInt32}
    (hn : CallsNeed cfg (updateCalls cfg env s key flags exptime nbytes true))
    (he : itemAlloc cfg env s key flags exptime nbytes = some (s', none)) : (StoreCall.get s' key).Needs cfg := by
  have hget := hn.right
  rw [he] at hget
  exact hget.head

section

variable (h : HeldBy cfg.toSettings g.store all drafts)
include h

theorem processTouchCommand_unrecorded (hn : CallsNeed cfg.toSettings (touchCalls g t)) :
    Unrecorded cfg all drafts c (processTouchCommand cfg c g t).1 (processTouchCommand cfg c g t).2 := by
  have hc := sameRefs_setNoreplyMaybe c t
  unfold processTouchCommand
  unfold touchCalls at hn
  dsimp only
  split
  · exact unrecorded_outString hc _ h
  · rw [if_neg ‹_›] at hn
    cases hx : safeStrtol (t.value 2) with
    | ok exptime =>
      rw [hx] at hn
      have hroom := hn.head.roomAt h.ok
      have ht := h.touch (realtime cfg.processStarted g.store exptime) hroom
      have hl : ∀ it, (touchItem cfg.toSettings g.store (t.value 1) (realtime cfg.processStarted g.store exptime)).2 = some it →
          ((touchItem cfg.toSettings g.store (t.value 1) (realtime cfg.processStarted g.store exptime)).1.mem it).linked = true :=
        fun _ => touchItem_linked h.ok hroom
      dsimp only
      rcases he : touchItem cfg.toSettings g.store (t.value 1) (realtime cfg.processStarted g.store exptime) with ⟨s, _ | it⟩
      · rw [he] at ht
        exact unrecorded_outString hc _ ht
      · rw [he] at ht hl
        exact unrecorded_outString hc _ (ht.remove (ht.not_draft (hl it rfl)))
    | bad | range => exact unrecorded_outString hc _ h

theorem processDeleteCommand_unrecorded (hn : CallsNeed cfg.toSettings (deleteCalls c g t)) :
    Unrecorded cfg all drafts c (processDeleteCommand cfg c g t).1 (processDeleteCommand cfg c g t).2 := by
  have hc : SameRefs c (if 3 < t.ntokens then setNoreplyMaybe c t else c) := by
    split
    · exact sameRefs_setNoreplyMaybe c t
    · exact .refl c
  unfold processDeleteCommand
  unfold deleteCalls at hn
  dsimp only at hn ⊢
  generalize (if 3 < t.ntokens then setNoreplyMaybe c t else c) = c₁ at hc hn
  split
  · exact unrecorded_outString hc _ h
  rw [if_neg ‹_›] at hn
  split
  · exact unrecorded_outString hc _ h
  · rw [if_neg ‹_›] at hn
    have hd := h.delete 0 (hn.head.roomAt h.ok)
    rcases he : deleteItem cfg.toSettings g.store (t.value 1) 0 with ⟨s, _ | _⟩ <;> rw [he] at hd <;>
      exact unrecorded_outString hc _ hd

theorem processArithmeticCommand_unrecorded {incr : Bool} (hn : CallsNeed cfg.toSettings (arithmeticCalls cfg env g t incr)) :
    Unrecorded cfg all drafts c (processArithmeticCommand cfg env c g t incr).1 (processArithmeticCommand cfg env c g t incr).2 := by
  have hc := sameRefs_setNoreplyMaybe c t
  unfold processArithmeticCommand
  unfold arithmeticCalls at hn
  dsimp only
  split
  · exact unrecorded_outString hc _ h
  · rw [if_neg ‹_›] at hn
    cases hx : scanStrtoull (t.value 2) with
    | ok delta =>
      rw [hx] at hn
      have hd := h.delta hn
      have hcas := doAddDelta_no_cas cfg.toSettings (env.alloc g.store) g.store (t.value 1) incr delta (cfg.hash (t.value 1))
      unfold addDelta
      dsimp only
      cases hres : (doAddDelta cfg.toSettings (env.alloc g.store) g.store (t.value 1) incr delta 0 (cfg.hash (t.value 1))).2.result with
      | DELTA_ITEM_CAS_MISMATCH => exact absurd hres hcas
      | OK | NON_NUMERIC | EOM | DELTA_ITEM_NOT_FOUND => exact unrecorded_outString hc _ hd
    | bad | range => exact unrecorded_outString hc _ h

theorem processFlushAll_unrecorded (he : processFlushAll cfg c g t = some (c', g')) : Unrecorded cfg all drafts c c' g' := by
  have hc := sameRefs_setNoreplyMaybe c t
  unfold processFlushAll at he
  dsimp only at he
  generalize setNoreplyMaybe c t = c₁ at hc he
  by_cases h1 : t.ntokens = if c₁.noreply then 3 else 2
  · rw [if_pos h1] at he
    cases he
    exact unrecorded_outString hc _ (h.flush 0)
  rw [if_neg h1] at he
  by_cases h2 : t.ntokens = 2
  · rw [if_pos h2] at he
    cases he
  rw [if_neg h2] at he
  split at he <;> cases he
  · exact unrecorded_outString hc _ h
  · exact unrecorded_outString hc _ (h.flush _)

theorem processStat_unrecorded : Unrecorded cfg all drafts c (processStat env c g t).1 (processStat env c g t).2 := by
  have hout := fun str (g₁ : Globals) (hg : g₁.store = g.store) =>
    unrecorded_outString (.refl c) str (show HeldBy cfg.toSettings g₁.store all drafts from hg ▸ h)
  unfold processStat processStatsDetail processStatsCachedump
  dsimp only
  split_ifs <;> first | exact unrecorded_writeAndFree _ h | exact hout _ _ rfl | skip
  split
  · split
    · exact hout _ _ rfl
    · exact unrecorded_writeAndFree _ h
  · exact hout _ _ rfl

theorem processSlabsCommand_unrecorded :
    Unrecorded cfg all drafts c (processSlabsCommand cfg env c g t).1 (processSlabsCommand cfg env c g t).2 := by
  have hout := fun c₁ str (g₁ : Globals) (hc : SameRefs c c₁) (hg : g₁.store = g.store) =>
    unrecorded_outString hc str (show HeldBy cfg.toSettings g₁.store all drafts from hg ▸ h)
  have hc := sameRefs_setNoreplyMaybe c t
  unfold processSlabsCommand processSlabsReassign processSlabsAutomoveCommand
  dsimp only
  split_ifs <;> first | exact hout _ _ _ (.refl c) rfl | exact hout _ _ _ hc rfl | skip
  split <;> exact hout _ _ _ (.refl c) rfl

theorem processOther_unrecorded {leftCom : Bytes} {rtn : Int} (hs : c.state ≠ .nread)
    (he : processOther cfg env c g t leftCom = some (c', g', rtn)) : Unrecorded cfg all drafts c c' g' := by
  have hout := fun c₁ str (g₁ : Globals) (hc : SameRefs c c₁) (hg : g₁.store = g.store) =>
    unrecorded_outString hc str (show HeldBy cfg.toSettings g₁.store all drafts from hg ▸ h)
  unfold processOther at he
  by_cases hr : cfg.ramcubeMode = true
  swap
  · rw [if_neg hr] at he
    cases he
    exact hout _ _ _ (.refl c) rfl
  rw [if_pos hr] at he
  obtain ⟨⟨c1, g1, n⟩, hproc, he⟩ := Option.map_eq_some_iff.mp he
  -- the commands between nodes answer, or leave the connection in its state
  have hnode : Unrecorded cfg all drafts c c1 g1 := by
    have hstay : ∀ c₁ : Conn, SameRefs c c₁ → c₁.state = c.state → Unrecorded cfg all drafts c c₁ g := fun c₁ hc hs₁ =>
      ⟨hc, fun hn => absurd (hs₁.symm.trans hn) hs, h⟩
    unfold ramcubeProcessCommands at hproc
    dsimp only at hproc
    split_ifs at hproc
    · cases hproc
      exact hstay _ ⟨⟨rfl, rfl, rfl⟩, rfl⟩ rfl
    · obtain ⟨⟨b, text⟩, _, hproc⟩ := Option.map_eq_some_iff.mp hproc
      cases hproc
      exact hout _ _ _ ⟨⟨rfl, rfl, rfl⟩, rfl⟩ rfl
    · cases hproc
      exact hstay _ (.refl c) rfl
    · cases hproc
      exact hstay _ (.refl c) rfl
    · cases hproc
      exact hout _ _ _ (.refl c) rfl
    · cases hproc
      exact hstay _ (.refl c) rfl
  dsimp only at he
  split_ifs at he
  · cases he
    exact ⟨hnode.same.trans ⟨⟨rfl, rfl, rfl⟩, rfl⟩, fun hn => (by cases hn), hnode.held⟩
  · cases he
    exact hnode
  · cases he
    exact ⟨hnode.same.trans (sameRefs_outString c1 _), fun hn => absurd hn (outString_state c1 _), hnode.held⟩

theorem startUpdate_takes {comm : NRead} {key : Bytes} {flags exptime vlen : Int} {reqCas : UInt64} (hc : SameRefs c c₁)
    (hp : c₁.protocol ≠ .binary) (h0 : 0 ≤ vlen)
    (hn : CallsNeed cfg.toSettings (updateCalls cfg.toSettings (env.alloc g.store) g.store key flags
      (realtime cfg.processStarted g.store exptime) vlen (comm = .set))) :
    Unrecorded cfg all drafts c (startUpdate cfg env c₁ g comm key flags exptime vlen reqCas).1
        (startUpdate cfg env c₁ g comm key flags exptime vlen reqCas).2 ∨
      ∃ it, Recorded cfg all drafts c (startUpdate cfg env c₁ g comm key flags exptime vlen reqCas).1
        (startUpdate cfg env c₁ g comm key flags exptime vlen reqCas).2 it := by
  have hitem : itemAlloc cfg.toSettings (env.alloc g.store) g.store key flags (realtime cfg.processStarted g.store exptime) vlen =
    some (doItemAlloc cfg.toSettings (env.alloc g.store) g.store key flags (realtime cfg.processStarted g.store exptime)
      vlen.toNat 0) := if_pos h0
  have hfailed : ∀ s str, HeldBy cfg.toSettings s all drafts → Unrecorded cfg all drafts c
      { outString c₁ str with writeAndGo := .swallow, sbytes := vlen } { g with store := s } := fun s str hs =>
    ⟨(hc.trans (sameRefs_outString c₁ str)).trans ⟨⟨rfl, rfl, rfl⟩, rfl⟩, fun hn => absurd hn (outString_state c₁ str), hs⟩
  unfold startUpdate processUpdate
  rcases he : doItemAlloc cfg.toSettings (env.alloc g.store) g.store key flags (realtime cfg.processStarted g.store exptime)
    vlen.toNat 0 with ⟨s, _ | it⟩
  · rw [he] at hitem
    obtain rfl := itemAlloc_same h hn.left hitem
    left
    dsimp only
    by_cases hset : comm = .set
    · rw [if_pos hset]
      rw [decide_eq_true hset] at hn
      exact hfailed _ _ (h.delete 0 ((updateCalls_lookup hn hitem).roomAt h.ok))
    · rw [if_neg hset]
      exact hfailed _ _ h
  · rw [he] at hitem
    have ha := (itemAlloc_held h hn.left hitem).setCas List.mem_cons_self reqCas
    right
    exact ⟨it, hc.toSameList.trans ⟨rfl, rfl, rfl⟩, rfl, .inr ⟨rfl, ⟨0, rfl⟩, rfl, fun hb => absurd hb hp⟩, ha⟩

theorem processUpdateCommand_takes {comm : NRead} (handleCas : Bool) (hp : c.protocol ≠ .binary)
    (hn : CallsNeed cfg.toSettings (updateLineCalls cfg env g t comm handleCas)) :
    Unrecorded cfg all drafts c (processUpdateCommand cfg env c g t comm handleCas).1
        (processUpdateCommand cfg env c g t comm handleCas).2 ∨
      ∃ it, Recorded cfg all drafts c (processUpdateCommand cfg env c g t comm handleCas).1
        (processUpdateCommand cfg env c g t comm handleCas).2 it := by
  have hc := sameRefs_setNoreplyMaybe c t
  have hp₁ : (setNoreplyMaybe c t).protocol ≠ .binary := by
    unfold setNoreplyMaybe
    split <;> exact hp
  unfold processUpdateCommand
  unfold updateLineCalls at hn
  dsimp only
  generalize setNoreplyMaybe c t = c₁ at hc hp₁
  split
  · exact .inl (unrecorded_outString hc _ h)
  · rw [if_neg ‹_›] at hn
    cases hargs : updateArgs t with
    | ok args =>
      obtain ⟨⟨flags, exptime⟩, n⟩ := args
      dsimp only
      cases hcas : (if handleCas then scanStrtoull (t.value 5) else Scanned.ok 0) with
      | ok reqCas =>
        rw [hargs, hcas] at hn
        dsimp only at hn ⊢
        by_cases hneg : asInt (n + 2) < 0 ∨ asInt (asInt (n + 2) - 2) < 0
        · rw [if_pos hneg]
          cases handleCas <;> exact .inl (unrecorded_outString hc _ h)
        · rw [if_neg hneg]
          rw [if_neg hneg] at hn
          cases handleCas <;> exact startUpdate_takes (by exact h) hc hp₁ (by omega) hn
      | bad | range => cases handleCas <;> exact .inl (unrecorded_outString hc _ h)
    | bad | range => exact .inl (unrecorded_outString hc _ h)

end

/-! ## Retrieval -/

/-- An item that is put in the list takes the place of one that is recorded, if it is not put
elsewhere. -/
theorem listed_update (c : Conn) (i : Nat) (it : Ptr) :
    ({ c with ilist := Function.update c.ilist i it } : Conn).listed.Subperm (it :: c.listed) := by
  by_cases hi : c.icurr ≤ i ∧ i - c.icurr < c.ileft
  · have hset : ({ c with ilist := Function.update c.ilist i it } : Conn).listed = c.listed.set (i - c.icurr) it := by
      refine List.ext_getElem (by simp [Conn.listed]) fun k hk _ => ?_
      simp only [Conn.listed, List.getElem_map, List.getElem_range, List.getElem_set, Function.update_apply]
      by_cases hki : i - c.icurr = k
      · rw [if_pos hki, if_pos (by omega)]
      · rw [if_neg hki, if_neg (by omega)]
    have hlen : i - c.icurr < c.listed.length := by simpa [Conn.listed] using hi.2
    rw [hset]
    exact (List.set_perm_cons_eraseIdx hlen it).subperm.trans ((List.subperm_cons it).mpr (List.eraseIdx_sublist _ _).subperm)
  · have hsame : ({ c with ilist := Function.update c.ilist i it } : Conn).listed = c.listed := by
      refine List.map_congr_left fun k hk => Function.update_of_ne ?_ it c.ilist
      have hlt := List.mem_range.mp hk
      dsimp only at hlt ⊢
      omega
    rw [hsame]
    exact .cons_right it (.refl _)

/-- The items found so far are at the start of the list, and nothing else has changed. -/
structure Gathered (c₀ c : Conn) (found : List Ptr) : Prop where
  item : c.item = c₀.item
  ileft : c.ileft = c₀.ileft
  first : (List.range found.length).map c.ilist = found
  listed : c.listed.Subperm (found ++ c₀.listed)

theorem Gathered.push {c₀ : Conn} {found : List Ptr} (h : Gathered c₀ c found) (it : Ptr) :
    Gathered c₀ { c with ilist := Function.update c.ilist found.length it } (found ++ [it]) where
  item := h.item
  ileft := h.ileft
  first := by
    rw [List.length_append, List.length_singleton, List.range_succ, List.map_append, List.map_singleton]
    dsimp only
    rw [Function.update_self]
    refine congrArg (· ++ [it]) (Eq.trans ?_ h.first)
    exact List.map_congr_left fun k hk => Function.update_of_ne (Nat.ne_of_lt (List.mem_range.mp hk)) it c.ilist
  listed := by
    refine (listed_update c found.length it).trans (((List.subperm_cons it).mpr h.listed).trans ?_)
    rw [List.append_assoc, List.singleton_append]
    exact List.perm_middle.symm.subperm

/-- A retrieval records the items it has found, or forgets them all. -/
theorem processGetKeys_keeps (returnCas : Bool) {keys : List Bytes} {found : List Ptr} (out : Bytes) {c₀ : Conn}
    (hf : Gathered c₀ c found) (h : HeldBy cfg.toSettings g.store (found ++ (c₀.refs ++ others)) drafts)
    (hn : CallsNeed cfg.toSettings (getCalls cfg.toSettings keys g.store)) :
    ∃ lost, Keeps cfg others drafts lost c₀ (processGetKeys cfg returnCas keys found.length out c g).1
        (processGetKeys cfg returnCas keys found.length out c g).2 ∧
      (c₀.ileft = 0 → NoneForgotten cfg.toSettings (found ≠ []) keys g.store → lost = []) := by
  induction keys generalizing found out c g with
  | nil =>
    refine ⟨c₀.listed, ⟨h.perm ?_, .of_state (by simp [processGetKeys]), fun _ _ => ?_⟩, fun h0 _ => listed_nil h0⟩
    · have hlisted : (processGetKeys cfg returnCas [] found.length out c g).1.refs = c₀.item.toList ++ found := by
        simp only [processGetKeys, Conn.refs, Conn.listed, Nat.zero_add, hf.item]
        rw [hf.first]
      rw [hlisted, Conn.refs, List.perm_iff_count]
      intro p
      simp only [List.count_append]
      omega
    · exact ⟨by simp [processGetKeys], by simp [processGetKeys], fun _ => .inl rfl⟩
  | cons key keys ih =>
    unfold processGetKeys
    by_cases hlong : KEY_MAX_LENGTH < key.length
    · rw [if_pos hlong]
      have hsame := sameRefs_outString c badFormat
      have hstate := outString_state c badFormat
      refine ⟨(found ++ c₀.listed).diff c.listed, ⟨?_, .of_state hstate, fun hc _ => ?_⟩, fun h0 hnone => ?_⟩
      · rw [draft_nil hstate]
        refine h.perm ?_
        have hlost := List.subperm_append_diff_self_of_count_le fun p _ => hf.listed.count_le p
        rw [hsame.refs, Conn.refs, Conn.refs, hf.item, List.perm_iff_count]
        intro p
        have hp := hlost.count_eq p
        simp only [List.count_append] at hp ⊢
        omega
      · refine ⟨fun hs => ?_, fun hs => absurd hs hstate, fun hl => ?_⟩
        · obtain hn | hn := outString_next c badFormat
          · simp [hn] at hs
          · simp [hn.1] at hs
        · exact absurd (hsame.ileft.trans (hf.ileft.trans hc.ileft)) hl
      · rw [NoneForgotten, if_pos hlong] at hnone
        have hfound : found = [] := by simpa using hnone
        rw [hfound, listed_nil h0]
        exact List.nil_diff _
    · rw [if_neg hlong]
      rw [getCalls, if_neg hlong] at hn
      have hkeys := hn.tail
      have hget := h.get (hn.head.roomAt h.ok)
      rcases he : getItem cfg.toSettings g.store key with ⟨s, _ | it⟩
      · rw [he] at hget hkeys
        obtain ⟨lost, hk, hl⟩ := ih out (g := { g with store := s }) hf hget hkeys
        refine ⟨lost, hk, fun h0 hnone => hl h0 ?_⟩
        rw [NoneForgotten, if_neg hlong, he] at hnone
        simpa using hnone
      · rw [he] at hget hkeys
        have hheld : HeldBy cfg.toSettings s (found ++ [it] ++ (c₀.refs ++ others)) drafts := hget.perm <| by
          rw [List.append_assoc]
          exact show (it :: (found ++ (c₀.refs ++ others))).Perm _ from List.perm_middle.symm
        obtain ⟨lost, hk, hl⟩ := ih (out ++ valueResponse returnCas (s.mem it)) (g := { g with store := s })
          (hf.push it) hheld hkeys
        rw [List.length_append, List.length_singleton] at hk
        refine ⟨lost, hk, fun h0 hnone => hl h0 ?_⟩
        rw [NoneForgotten, if_neg hlong, he] at hnone
        simpa using hnone

/-! ## A command line -/

/-- The line is no retrieval that forgets items. -/
def LineRemembers (cfg : Config) (g : Globals) (t : Tokens) : Prop :=
  ∀ returnCas, handlerOf t = .get returnCas → NoneForgotten cfg.toSettings false (getKeys t) g.store

instance (cfg : Config) (g : Globals) (t : Tokens) : Decidable (LineRemembers cfg g t) :=
  inferInstanceAs (Decidable (∀ returnCas, handlerOf t = .get returnCas → _))

/-- The references are kept, all of them if a condition holds and there were none before. -/
def KeepsIf (cfg : Config) (others drafts : List Ptr) (c c' : Conn) (g' : Globals) (remembers : Prop) : Prop :=
  ∃ lost, Keeps cfg others drafts lost c c' g' ∧ (Clean c → remembers → lost = [])

theorem Unrecorded.keepsIf {remembers : Prop} (h : Unrecorded cfg (c.refs ++ others) drafts c c' g') (hd : c.draft = []) :
    KeepsIf cfg others drafts c c' g' remembers := ⟨[], h.keeps (.inl hd), fun _ _ => rfl⟩

theorem Recorded.keepsIf {remembers : Prop} (h : Recorded cfg (c.refs ++ others) drafts c c' g' it) (hd : c.draft = []) :
    KeepsIf cfg others drafts c c' g' remembers := ⟨c.item.toList, h.keeps, fun hc _ => hc.item.trans hd⟩

theorem processCommand_keeps {command leftCom : Bytes} {rtn : Int} (hp : c.protocol ≠ .binary) (hs : c.state ≠ .nread)
    (h : HeldBy cfg.toSettings g.store (c.refs ++ others) drafts) (hn : CallsNeed cfg.toSettings (lineCalls cfg env c g (tokenizeCommand command)))
    (he : processCommand cfg env c g command leftCom = some (c', g', rtn)) :
    KeepsIf cfg others drafts c c' g' (LineRemembers cfg g (tokenizeCommand command)) := by
  have hd := draft_nil hs
  unfold processCommand at he
  unfold lineCalls at hn
  dsimp only at he
  cases hh : handlerOf (tokenizeCommand command) with
  | get returnCas =>
    rw [hh] at he hn
    cases he
    obtain ⟨lost, hk, hl⟩ := processGetKeys_keeps returnCas []
      (⟨rfl, rfl, rfl, .refl _⟩ : Gathered c c []) h hn
    exact ⟨lost, hk, fun hc hr => hl hc.ileft (hr returnCas hh)⟩
  | update comm handleCas =>
    rw [hh] at he hn
    cases he
    obtain ha | ⟨it, hr⟩ := processUpdateCommand_takes h handleCas hp hn
    · exact ha.keepsIf hd
    · exact hr.keepsIf hd
  | arithmetic incr =>
    rw [hh] at he hn
    cases he
    exact (processArithmeticCommand_unrecorded h hn).keepsIf hd
  | delete =>
    rw [hh] at he hn
    cases he
    exact (processDeleteCommand_unrecorded h hn).keepsIf hd
  | touch =>
    rw [hh] at he hn
    cases he
    exact (processTouchCommand_unrecorded h hn).keepsIf hd
  | stats =>
    rw [hh] at he
    cases he
    exact (processStat_unrecorded h).keepsIf hd
  | flushAll =>
    rw [hh] at he
    obtain ⟨⟨c1, g1⟩, hf, he⟩ := Option.bind_eq_some_iff.mp he
    cases he
    exact (processFlushAll_unrecorded h hf).keepsIf hd
  | version =>
    rw [hh] at he
    cases he
    exact (unrecorded_outString (.refl c) _ h).keepsIf hd
  | quit =>
    rw [hh] at he
    cases he
    exact Unrecorded.keepsIf ⟨⟨⟨rfl, rfl, rfl⟩, rfl⟩, fun hn => (by cases hn), h⟩ hd
  | slabs =>
    rw [hh] at he
    cases he
    exact (processSlabsCommand_unrecorded h).keepsIf hd
  | verbosity =>
    rw [hh] at he
    cases he
    refine Unrecorded.keepsIf (unrecorded_outString (sameRefs_setNoreplyMaybe c _) _ ?_) hd
    exact h
  | other =>
    rw [hh] at he
    exact (processOther_unrecorded h hs he).keepsIf hd

end RamCube
