import RamCube.Server.Requests
import RamCube.Store.KeyValues

/-! # Peers without a user name

With SASL every connection starts with the binary protocol, whose dispatcher lets a peer
that has not authenticated ask for the version and authenticate, and no more. -/
namespace RamCube

variable {cfg : Config} {env : Env} {c c' : Conn} {g g' : Globals} {s s' : Session} {held : Ptr → Nat}
  {theirs : Ptr → Prop} {it : Ptr} {inp : Input}

/-! ## What such a peer is sent -/

/-- The library has a name for a connection only after a call that succeeded. -/
def NamesAfterSuccess (lib : SaslLib) : Prop :=
  ∀ calls, lib.username calls = true →
    ∃ before call after, calls = before ++ call :: after ∧ lib.answer (some before) call = .OK

inductive GuestText (cfg : Config) : Bytes → Prop where
  | error (err : BinStatus) : GuestText cfg err.errstr
  | version : GuestText cfg (ascii "1.4.15")
  | mechs {calls : Option (List SaslCall)} {text : Bytes} : cfg.saslLib.listmech calls = some text → GuestText cfg text
  | challenge {calls : Option (List SaslCall)} {call : SaslCall} {text : Bytes} :
      cfg.saslLib.answer calls call = .CONTINUE text → GuestText cfg text

/-- The responses that have nothing of the store in them. -/
inductive GuestReply (cfg : Config) : Bytes → Prop where
  | binary (c : Conn) (err : BinStatus) {text : Bytes} : GuestText cfg text →
      GuestReply cfg (binHeader c err 0 0 text.length ++ text)
  | multiPacket : GuestReply cfg (outLine (ascii "SERVER_ERROR multi-packet request not supported"))
  | outOfMemory : GuestReply cfg (outLine (ascii "SERVER_ERROR out of memory reading request"))

/-- What is still to be sent is the end of such a response. -/
def SaysNothing (cfg : Config) (out : Bytes) : Prop := ∃ reply, GuestReply cfg reply ∧ out <:+ reply

theorem saysNothing_nil : SaysNothing cfg [] := ⟨_, .multiPacket, List.nil_suffix⟩

theorem GuestReply.saysNothing {reply : Bytes} (h : GuestReply cfg reply) : SaysNothing cfg reply :=
  ⟨reply, h, List.suffix_refl _⟩

theorem SaysNothing.drop {out : Bytes} (h : SaysNothing cfg out) (n : Nat) : SaysNothing cfg (out.drop n) := by
  obtain ⟨reply, hr, ho⟩ := h
  exact ⟨reply, hr, (List.drop_suffix n out).trans ho⟩

/-! ## The connection of such a peer -/

/-- No call on the `sasl_conn_t` has succeeded. -/
def AllRefused (lib : SaslLib) (sasl : Option (List SaslCall)) : Prop :=
  ∀ calls, sasl = some calls → ∀ before call after, calls = before ++ call :: after →
    lib.answer (some before) call ≠ .OK

/-- What no turn changes. -/
structure Guest (cfg : Config) (c : Conn) : Prop where
  protocol : c.transport ≠ .udp → c.protocol = .binary
  ileft : c.ileft = 0
  refused : AllRefused cfg.saslLib c.sasl

theorem Guest.of_same (h : Guest cfg c) (ht : c'.transport = c.transport) (hp : c'.protocol = c.protocol)
    (hl : c'.ileft = c.ileft) (hs : c'.sasl = c.sasl) : Guest cfg c' := by
  refine ⟨fun hu => ?_, hl.trans h.ileft, ?_⟩
  · rw [hp]
    exact h.protocol (ht ▸ hu)
  · rw [hs]
    exact h.refused

/-- It reads a mechanism or a challenge. -/
inductive ReadsSasl (c : Conn) : Prop where
  | mech {got : Bytes} : c.substate = .readingSaslAuth → c.ritem = .packet got → ReadsSasl c
  | challenge {it : Ptr} {off : Nat} : c.substate = .readingSaslAuthData → c.item = some it →
      c.ritem = .item it off → ReadsSasl c

structure Locked (cfg : Config) (c : Conn) : Prop extends Guest cfg c where
  reads : c.state = .nread → c.protocol = .binary ∧ ReadsSasl c
  next : c.writeAndGo ≠ .nread
  out : SaysNothing cfg c.out

/-- It does not read from now on. -/
theorem Locked.of_idle (h : Guest cfg c) (hs : c.state ≠ .nread) (hn : c.writeAndGo ≠ .nread)
    (ho : SaysNothing cfg c.out) : Locked cfg c :=
  ⟨h, fun hr => absurd hr hs, hn, ho⟩

theorem Locked.setState (h : Locked cfg c) {state : ConnState} (hs : state ≠ .nread) :
    Locked cfg { c with state := state } :=
  .of_idle (h.of_same rfl rfl rfl rfl) hs h.next h.out

theorem locked_writeBinError (h : Guest cfg c) (err : BinStatus) (swallow : Int) : Locked cfg (writeBinError c err swallow) := by
  have hreply : SaysNothing cfg _ := (GuestReply.binary c err (.error err)).saysNothing
  unfold writeBinError
  dsimp only
  split
  · exact .of_idle (h.of_same rfl rfl rfl rfl) nofun nofun hreply
  · exact .of_idle (h.of_same rfl rfl rfl rfl) nofun nofun hreply

theorem locked_binErrorSwallow (h : Guest cfg c) (err : BinStatus) (vlen : Int) :
    Locked cfg (binErrorSwallow c err vlen) := by
  have hw := locked_writeBinError h err vlen
  have hstate : (binErrorSwallow c err vlen).state ≠ .nread := by
    rw [show (binErrorSwallow c err vlen).state = .mwrite from writeBinError_state c err vlen]
    nofun
  exact .of_idle (hw.of_same rfl rfl rfl rfl) hstate nofun hw.out

theorem locked_protocolError (h : Guest cfg c) : Locked cfg (handleBinaryProtocolError c) :=
  .of_idle (h.of_same rfl rfl rfl rfl) nofun nofun (locked_writeBinError h .EINVAL 0).out

theorem locked_writeBinResponse (h : Guest cfg c) (hn : c.writeAndGo ≠ .nread) (ho : SaysNothing cfg c.out) {d : Bytes}
    (hd : GuestText cfg d) : Locked cfg (writeBinResponse c d 0 0) := by
  unfold writeBinResponse
  split
  · exact .of_idle (h.of_same rfl rfl rfl rfl) nofun nofun (GuestReply.binary c .SUCCESS hd).saysNothing
  · exact .of_idle (h.of_same rfl rfl rfl rfl) nofun hn ho

/-- The opcodes that `authenticated` lets pass. -/
def guestCmds : List Int := [CMD_SASL_LIST_MECHS, CMD_SASL_AUTH, CMD_SASL_STEP, CMD_VERSION]

theorem Guest.authenticated (hlib : NamesAfterSuccess cfg.saslLib) (h : Guest cfg c)
    (ha : authenticated cfg c = true) : c.cmd ∈ guestCmds := by
  by_contra hcmd
  unfold RamCube.authenticated at ha
  rw [if_neg (show c.cmd ∉ [CMD_SASL_LIST_MECHS, CMD_SASL_AUTH, CMD_SASL_STEP, CMD_VERSION] from hcmd)] at ha
  cases hsasl : c.sasl with
  | none =>
    rw [hsasl] at ha
    cases ha
  | some calls =>
    rw [hsasl] at ha
    obtain ⟨before, call, after, hcalls, hok⟩ := hlib calls ha
    exact h.refused calls hsasl before call after hcalls hok

theorem initSaslConn_guest (h : Guest cfg c) : Guest cfg (initSaslConn cfg c) ∧ (initSaslConn cfg c).item = c.item := by
  unfold initSaslConn
  split
  · exact ⟨h, rfl⟩
  · split
    · exact ⟨h, rfl⟩
    · split
      · refine ⟨⟨h.protocol, h.ileft, fun calls hc before call after he => ?_⟩, rfl⟩
        obtain rfl : [] = calls := Option.some.inj hc
        exact absurd he (by simp)
      · exact ⟨h, rfl⟩

theorem initSaslConn_answer (c : Conn) : (initSaslConn cfg c).writeAndGo = c.writeAndGo ∧
    (initSaslConn cfg c).out = c.out ∧ (initSaslConn cfg c).cmd = c.cmd := by
  unfold initSaslConn
  split
  · exact ⟨rfl, rfl, rfl⟩
  · split
    · exact ⟨rfl, rfl, rfl⟩
    · split <;> exact ⟨rfl, rfl, rfl⟩

theorem locked_binListSaslMechs (h : Guest cfg c) (hn : c.writeAndGo ≠ .nread) (ho : SaysNothing cfg c.out) :
    Locked cfg (binListSaslMechs cfg c) := by
  unfold binListSaslMechs
  split
  · exact locked_writeBinError h _ _
  · have hi := (initSaslConn_guest h).1
    obtain ⟨hgo, hout, -⟩ := @initSaslConn_answer cfg c
    dsimp only
    cases hm : cfg.saslLib.listmech (initSaslConn cfg c).sasl with
    | none => exact locked_writeBinError hi _ _
    | some mechs => exact locked_writeBinResponse hi (hgo ▸ hn) (hout ▸ ho) (.mechs hm)

/-! ## A request -/

theorem binListSaslMechs_item (cfg : Config) (c : Conn) : (binListSaslMechs cfg c).item = c.item := by
  have hinit : (initSaslConn cfg c).item = c.item := by
    unfold initSaslConn
    split
    · rfl
    · split
      · rfl
      · split <;> rfl
  unfold binListSaslMechs
  split
  · unfold writeBinError
    dsimp only
    split <;> rfl
  · dsimp only
    split
    · exact hinit
    · exact (core_field Conn.item (fun _ => rfl) (core_writeBinResponse _ _ 0 0)).trans hinit

theorem dispatchBinOpcode_version (hcmd : c.cmd = CMD_VERSION) : dispatchBinOpcode cfg c =
    if c.binaryHeader.extlen.toNat = 0 ∧ c.binaryHeader.keylen.toNat = 0 ∧ c.binaryHeader.bodylen.toNat = 0 then
      some (writeBinResponse c (ascii "1.4.15") 0 0)
    else none := by
  unfold dispatchBinOpcode
  simp only [hcmd]
  rfl

theorem dispatchBinOpcode_mechs (hcmd : c.cmd = CMD_SASL_LIST_MECHS) : dispatchBinOpcode cfg c =
    if c.binaryHeader.extlen.toNat = 0 ∧ c.binaryHeader.keylen.toNat = 0 ∧ c.binaryHeader.bodylen.toNat = 0 then
      some (binListSaslMechs cfg c)
    else none := by
  unfold dispatchBinOpcode
  simp only [hcmd]
  rfl

/-- What the four opcodes lead to. -/
theorem dispatchBinOpcode_guest (h : Guest cfg c) (hb : c.protocol = .binary) (hn : c.writeAndGo ≠ .nread)
    (ho : SaysNothing cfg c.out) (hcmd : c.cmd ∈ guestCmds) (hd : dispatchBinOpcode cfg c = some c') :
    Locked cfg c' ∧ c'.item = c.item := by
  have hcases : c.cmd = CMD_SASL_LIST_MECHS ∨ c.cmd = CMD_VERSION ∨ c.cmd ∈ saslCmds := by
    simp only [guestCmds, saslCmds, List.mem_cons, List.not_mem_nil, or_false] at hcmd ⊢
    tauto
  obtain hcmd | hcmd | hcmd := hcases
  · rw [dispatchBinOpcode_mechs hcmd, Option.ite_none_right_eq_some] at hd
    obtain ⟨-, hd⟩ := hd
    cases hd
    exact ⟨locked_binListSaslMechs h hn ho, binListSaslMechs_item cfg c⟩
  · rw [dispatchBinOpcode_version hcmd, Option.ite_none_right_eq_some] at hd
    obtain ⟨-, hd⟩ := hd
    cases hd
    exact ⟨locked_writeBinResponse h hn ho .version, core_field Conn.item (fun _ => rfl) (core_writeBinResponse c _ 0 0)⟩
  · rw [dispatchBinOpcode_sasl hcmd, Option.ite_none_right_eq_some] at hd
    obtain ⟨-, hd⟩ := hd
    cases hd
    exact ⟨⟨h.of_same rfl rfl rfl rfl, fun _ => ⟨hb, .mech rfl rfl⟩, hn, ho⟩, rfl⟩

/-- A request that is answered with an authentication error, the last answer of its
connection. -/
structure AuthRefused (c : Conn) : Prop where
  state : c.state = .mwrite
  next : c.writeAndGo = .closing
  out : ∃ c₀, c.out = binHeader c₀ .AUTH_ERROR 0 0 BinStatus.AUTH_ERROR.errstr.length ++ BinStatus.AUTH_ERROR.errstr

theorem dispatchBinCommand_guest (hlib : NamesAfterSuccess cfg.saslLib) (hsasl : cfg.sasl = true) (h : Guest cfg c)
    (hb : c.protocol = .binary) (hn : c.writeAndGo ≠ .nread) (ho : SaysNothing cfg c.out) :
    Locked cfg (dispatchBinCommand cfg c) ∧ (dispatchBinCommand cfg c).item = c.item ∧
      (c.cmd ∈ guestCmds ∨ AuthRefused (dispatchBinCommand cfg c)) := by
  have hsame : Guest cfg { c with noreply := true } ∧ Guest cfg { c with noreply := false } :=
    ⟨h.of_same rfl rfl rfl rfl, h.of_same rfl rfl rfl rfl⟩
  unfold dispatchBinCommand
  by_cases ha : authenticated cfg c = false
  · rw [if_pos ⟨hsasl, ha⟩]
    refine ⟨?_, rfl, .inr ⟨rfl, rfl, c, rfl⟩⟩
    exact .of_idle (h.of_same rfl rfl rfl rfl) nofun nofun (locked_writeBinError h .AUTH_ERROR 0).out
  have hcmd : c.cmd ∈ guestCmds := h.authenticated hlib (by simpa using ha)
  rw [if_neg fun hr => ha hr.2]
  by_cases hkey : KEY_MAX_LENGTH < c.binaryHeader.keylen.toNat
  · rw [if_pos hkey]
    exact ⟨locked_protocolError hsame.1, rfl, .inl hcmd⟩
  have hloud : ∀ cmd ∈ guestCmds, quietOf cmd = none := by decide
  rw [if_neg hkey, hloud c.cmd hcmd]
  dsimp only
  cases hd : dispatchBinOpcode cfg { c with noreply := false } with
  | none => exact ⟨locked_protocolError hsame.2, rfl, .inl hcmd⟩
  | some c' =>
    obtain ⟨hl, hi⟩ := dispatchBinOpcode_guest hsame.2 hb hn ho hcmd hd
    exact ⟨hl, hi, .inl hcmd⟩

/-! ## The item for the data of a SASL request -/

/-- This connection refers to the item `mine`, other connections of guests to `theirs`.
None of these is stored. -/
structure Holdings (cfg : Settings) (s : Store) (held : Ptr → Nat) (mine : Option Ptr) (theirs : Ptr → Prop) : Prop where
  ok : StoreOk cfg s held
  mine : ∀ it, mine = some it → 0 < held it ∧ (s.mem it).linked = false ∧ ¬theirs it
  theirs : ∀ p, theirs p → 0 < held p ∧ (s.mem p).linked = false

/-- What other clients are served is the same. -/
structure SameService (cfg : Config) (g g' : Globals) : Prop where
  lookup : ∀ key, lookup cfg.toSettings g'.store key = lookup cfg.toSettings g.store key
  clock : g'.store.env = g.store.env
  settings : g' = { g with store := g'.store, erange := g'.erange }

theorem SameService.refl (g : Globals) : SameService cfg g g := ⟨fun _ => rfl, rfl, rfl⟩

theorem SameService.of_store (hs : g'.store = g.store) (hg : g' = { g with store := g'.store, erange := g'.erange }) :
    SameService cfg g g' := ⟨fun key => by rw [hs], by rw [hs], hg⟩

section

variable {cfg : Settings} {s : Store}

theorem Holdings.remove (h : Holdings cfg s held (some it) theirs) :
    Holdings cfg (doItemRemove cfg s it) (dropRef held it) none theirs ∧
      ∀ key, lookup cfg (doItemRemove cfg s it) key = lookup cfg s key := by
  obtain ⟨hheld, -, hnot⟩ := h.mine it rfl
  have hok := h.ok.remove hheld
  refine ⟨⟨hok, nofun, fun p hp => ?_⟩, lookup_remove h.ok hok⟩
  obtain ⟨hpheld, hpl⟩ := h.theirs p hp
  have hne : p ≠ it := fun he => hnot (he ▸ hp)
  refine ⟨?_, (doItemRemove_mem cfg s it p).2.1.trans hpl⟩
  rwa [dropRef, Function.update_of_ne hne]

theorem Holdings.write (h : Holdings cfg s held (some it) theirs) (off : Nat) (bs : Bytes) :
    Holdings cfg (s.modify it (writeData off bs)) held (some it) theirs ∧
      ∀ key, lookup cfg (s.modify it (writeData off bs)) key = lookup cfg s key := by
  obtain ⟨hheld, hl, hnot⟩ := h.mine it rfl
  have hlinked : ∀ p, ((s.modify it (writeData off bs)).mem p).linked = (s.mem p).linked :=
    fun p => modify_field (·.linked) rfl p
  have hstep : ∃ op, QuietStep cfg (fun _ _ => True) ⟨s, held⟩ op ⟨s.modify it (writeData off bs), held⟩ :=
    write_step hheld hl (writeData_bytes off bs (s.mem it))
  have hok := step_keeps h.ok hstep
  refine ⟨⟨hok, fun p hp => ?_, fun p hp => ?_⟩, lookup_modify h.ok hok hl hl⟩
  · obtain rfl : it = p := Option.some.inj hp
    exact ⟨hheld, (hlinked it).trans hl, hnot⟩
  · obtain ⟨hpheld, hpl⟩ := h.theirs p hp
    exact ⟨hpheld, (hlinked p).trans hpl⟩

/-- The item is not stored, so that `item_unlink` does nothing. -/
theorem Holdings.unlink (h : Holdings cfg s held (some it) theirs) (hv : UInt32) : doItemUnlink cfg s it hv = s := by
  obtain ⟨-, hl, -⟩ := h.mine it rfl
  unfold doItemUnlink doItemUnlinkNolock
  rw [if_neg (by simp [hl])]

/-- A chunk that is free, or whose item nobody is served any more. -/
theorem Holdings.alloc {mine : Option Ptr} {s' : Store} {env : AllocEnv} {key : Bytes} {n : Nat}
    (h : Holdings cfg s held mine theirs) (ha : AllocGuard cfg env s key 0 n 0)
    (hal : doItemAlloc cfg env s key 0 0 n 0 = (s', some it))
    (hspare : (s.mem it).linked = true → flushedOrExpired s (s.mem it) = true) :
    Holdings cfg s' (addRef held it) (some it) theirs ∧ (∀ k, lookup cfg s' k = lookup cfg s k) ∧ s'.env = s.env := by
  obtain ⟨m, q, id, i, hal', hok, hk, hmem⟩ := (doItemAlloc_spec h.ok ha.page key 0 0 n 0 ha.noRepair).resolve_left
    fun hnone => by cases hnone.symm.trans hal
  rw [hal] at hal'
  cases hal'
  have hl : (s'.mem it).linked = false := by
    rw [hmem]
    rfl
  have hfree : held it = 0 := by
    have hrefs := h.ok.refcount_eq it
    rw [hk.count] at hrefs
    omega
  have hnot : ¬theirs it := fun ht => Nat.ne_of_gt (h.theirs it ht).1 hfree
  refine ⟨⟨hok, fun p hp => ?_, fun p hp => ?_⟩, fun k => ?_, hk.env⟩
  · obtain rfl : it = p := Option.some.inj hp
    exact ⟨addRef_self held it, hl, hnot⟩
  · obtain ⟨hpheld, hpl⟩ := h.theirs p hp
    have hne : p ≠ it := fun he => hnot (he ▸ hp)
    refine ⟨?_, ?_⟩
    · rwa [addRef, Function.update_of_ne hne]
    · rw [hk.linked, hpl, Bool.false_and]
  · refine Option.ext fun e => ?_
    rw [lookup_some h.ok, lookup_some hok]
    refine exists_congr fun p => ?_
    by_cases hp : p = it
    · rw [hp, hl]
      refine ⟨fun hx => (by cases hx.1), ?_⟩
      rintro ⟨hx, _, hlive, _⟩
      rw [hspare hx] at hlive
      cases hlive
    · rw [hk.linked]
      simp only [hp, ne_eq, not_false_eq_true, decide_true, Bool.and_true]
      refine and_congr_right fun hpl => ?_
      have hbody := hk.body p hp (h.ok.carved_of (.inl hpl))
      rw [flushedOrExpired_congr hk.env hbody, itemEntry_of_body hbody, show s'.key p = s.key p from key_of_body hbody]

end

/-! ## Authentication -/

/-- The call that `process_bin_complete_sasl_auth` makes. -/
def saslCall (c : Conn) (g : Globals) (it : Ptr) : SaslCall :=
  if c.cmd = CMD_SASL_AUTH then .start (cText (itemKey (g.store.mem it))) (itemData (g.store.mem it))
  else .step (itemData (g.store.mem it))

/-- The chunk for the data of the request is not taken from an item that clients are
served. -/
structure SparesStored (cfg : Config) (env : Env) (c : Conn) (g : Globals) : Prop where
  guard : AllocGuard cfg.toSettings (env.alloc g.store) g.store c.binKey 0 (keyedVlen c.binaryHeader).toNat 0
  spare : ∀ s' it, doItemAlloc cfg.toSettings (env.alloc g.store) g.store c.binKey 0 0 (keyedVlen c.binaryHeader).toNat 0 =
    (s', some it) → (g.store.mem it).linked = true → flushedOrExpired g.store (g.store.mem it) = true

theorem itemAlloc_none {alloc : AllocEnv} {s s' : Store} {key : Bytes} {nbytes : Int} (h : StoreOk cfg.toSettings s held)
    (ha : AllocGuard cfg.toSettings alloc s key 0 nbytes.toNat 0)
    (hal : itemAlloc cfg.toSettings alloc s key 0 0 nbytes = some (s', none)) : s' = s := by
  unfold itemAlloc at hal
  split at hal
  · obtain hnone | ⟨m, q, id, i, hsome, -⟩ := doItemAlloc_spec h ha.page key 0 0 nbytes.toNat 0 ha.noRepair
    · rw [hnone] at hal
      cases hal
      rfl
    · rw [hsome] at hal
      cases hal
  · split at hal
    · cases hal
      rfl
    · cases hal

theorem processBinSaslAuth_guest (h : Guest cfg c) (hb : c.protocol = .binary) (hn : c.writeAndGo ≠ .nread)
    (ho : SaysNothing cfg c.out) (hh : Holdings cfg.toSettings g.store held c.item theirs) (hs : SparesStored cfg env c g)
    (hp : processBinSaslAuth cfg env c g = some (c', g')) :
    Locked cfg c' ∧ SameService cfg g g' ∧ ∃ held', Holdings cfg.toSettings g'.store held' c'.item theirs := by
  have hitem : ∀ err vlen, (writeBinError c err vlen).item = c.item := by
    intro err vlen
    unfold writeBinError
    dsimp only
    split <;> rfl
  have hstay : ∀ c' : Conn, c'.item = c.item → ∃ held', Holdings cfg.toSettings g.store held' c'.item theirs := by
    intro c' hi
    rw [hi]
    exact ⟨held, hh⟩
  unfold processBinSaslAuth at hp
  dsimp only at hp
  by_cases hsasl : cfg.sasl = false
  · rw [if_pos hsasl] at hp
    cases hp
    exact ⟨locked_writeBinError h _ _, .refl g, hstay _ (hitem _ _)⟩
  rw [if_neg hsasl] at hp
  by_cases hkey : MAX_SASL_MECH_LEN < c.keylen
  · rw [if_pos hkey] at hp
    cases hp
    exact ⟨locked_binErrorSwallow h _ _, .refl g, hstay _ (hitem _ _)⟩
  rw [if_neg hkey] at hp
  obtain ⟨⟨s', _ | it⟩, hal, hp⟩ := Option.bind_eq_some_iff.mp hp
  · cases hp
    obtain rfl : s' = g.store := itemAlloc_none hh.ok hs.guard hal
    exact ⟨locked_binErrorSwallow h _ _, .refl g, hstay _ (hitem _ _)⟩
  · cases hp
    obtain ⟨-, hal⟩ := itemAlloc_some hal
    obtain ⟨hh', hlookup, henv⟩ := hh.alloc hs.guard hal (hs.spare s' it hal)
    refine ⟨⟨h.of_same rfl rfl rfl rfl, fun _ => ⟨hb, .challenge rfl rfl rfl⟩, hn, ho⟩, ⟨hlookup, henv, rfl⟩, _, hh'⟩

theorem AllRefused.snoc {lib : SaslLib} {sasl : Option (List SaslCall)} {call : SaslCall} (h : AllRefused lib sasl)
    (hr : lib.answer sasl call ≠ .OK) : AllRefused lib (sasl.map fun calls => calls ++ [call]) := by
  intro calls' hcalls before x after he
  obtain ⟨calls, hs, rfl⟩ := Option.map_eq_some_iff.mp hcalls
  obtain rfl | ⟨after, y, rfl⟩ := List.eq_nil_or_concat after
  · obtain ⟨rfl, hx⟩ := List.append_inj' he rfl
    rw [← (List.cons.inj hx).1, ← hs]
    exact hr
  · have he' : calls ++ [call] = (before ++ x :: after) ++ [y] := by simpa using he
    obtain ⟨hpre, -⟩ := List.append_inj' he' rfl
    exact h calls hs before x after hpre

/-- The data is handed to the library. -/
theorem processBinCompleteSaslAuth_guest (h : Guest cfg c) (hi : c.item = some it) (hh : Holdings cfg.toSettings g.store held (some it) theirs)
    (hr : cfg.saslLib.answer (initSaslConn cfg c).sasl (saslCall c g it) ≠ .OK)
    (hp : processBinCompleteSaslAuth cfg c g = some (c', g')) : Locked cfg c' ∧ g' = g ∧ c'.item = some it := by
  obtain ⟨hguest, hitem⟩ := initSaslConn_guest h
  obtain ⟨hgo, hout, hcmd⟩ := @initSaslConn_answer cfg c
  have hguest' : Guest cfg { initSaslConn cfg c with sasl := (initSaslConn cfg c).sasl.map fun calls => calls ++ [saslCall c g it] } :=
    ⟨hguest.protocol, hguest.ileft, hguest.refused.snoc hr⟩
  unfold processBinCompleteSaslAuth at hp
  simp only [hi, Option.bind_eq_bind, Option.bind_some, hh.unlink, hcmd] at hp
  rw [← saslCall] at hp
  generalize hans : cfg.saslLib.answer (initSaslConn cfg c).sasl (saslCall c g it) = answer at hp hr
  cases answer with
  | OK => exact absurd rfl hr
  | CONTINUE out =>
    cases hp
    refine ⟨.of_idle (hguest'.of_same rfl rfl rfl rfl) nofun nofun ?_, rfl, hitem.trans hi⟩
    exact (GuestReply.binary _ .AUTH_CONTINUE (.challenge hans)).saysNothing
  | FAIL =>
    cases hp
    refine ⟨locked_writeBinError ?_ _ _, rfl, hitem.trans hi⟩
    exact hguest'.of_same rfl rfl rfl rfl

/-! ## The turns of such a connection -/

/-- The condition on a turn: a packet starts like a binary request, no item that clients
are served makes way for the data of a SASL request, and no exchange succeeds. -/
structure KeptOut (cfg : Config) (env : Env) (s : Session) : Prop where
  packet : s.c.transport = .udp → s.c.state = .parseCmd → s.c.rbuf0 = 0x80
  spares : s.c.state = .nread → s.c.rlbytes = 0 → s.c.substate = .readingSaslAuth → SparesStored cfg env s.c s.g
  refused : s.c.state = .nread → s.c.rlbytes = 0 → s.c.substate = .readingSaslAuthData →
    ∀ it, s.c.item = some it → cfg.saslLib.answer (initSaslConn cfg s.c).sasl (saslCall s.c s.g it) ≠ .OK

/-- What a turn may execute for a connection that is `c` after it. -/
inductive LetThrough (c : Conn) : Executed → Prop where
  | request {h : BinaryHeader} : (h.opcode.toNat : Int) ∈ guestCmds → LetThrough c (.request h)
  | refused {h : BinaryHeader} : AuthRefused c → LetThrough c (.request h)
  | data (bs : Bytes) : LetThrough c (.block bs)

/-- A turn that leaves everything alone, sends nothing of the store and executes nothing
but what is permitted. -/
structure Innocent (cfg : Config) (s s' : Session) : Prop where
  service : SameService cfg s.g s'.g
  sent : ∃ bs, s'.sent = s.sent ++ bs ∧ ∃ reply, GuestReply cfg reply ∧ bs <:+: reply
  executed : ∃ es, s'.executed = s.executed ++ es ∧ ∀ e ∈ es, LetThrough s'.c e

/-- A turn and what holds of the connection after it. -/
structure Obeys (cfg : Config) (theirs : Ptr → Prop) (s s' : Session) : Prop extends Innocent cfg s s' where
  locked : Locked cfg s'.c
  holds : ∃ held, Holdings cfg.toSettings s'.g.store held s'.c.item theirs

theorem Innocent.of_same (hg : SameService cfg s.g s'.g) (hs : s'.sent = s.sent) (he : s'.executed = s.executed) :
    Innocent cfg s s' :=
  ⟨hg, ⟨[], by rw [hs, List.append_nil], _, .multiPacket, List.nil_infix⟩, ⟨[], by rw [he, List.append_nil], nofun⟩⟩

/-- A turn that does not touch the store. -/
theorem Obeys.of_still (hh : Holdings cfg.toSettings s.g.store held s.c.item theirs) (hl : Locked cfg s'.c)
    (hi : s'.c.item = s.c.item) (hst : s'.g.store = s.g.store) (hg : s'.g = { s.g with store := s'.g.store, erange := s'.g.erange })
    (hs : s'.sent = s.sent) (he : s'.executed = s.executed) : Obeys cfg theirs s s' :=
  ⟨.of_same (.of_store hst hg) hs he, hl, held, by rw [hst, hi]; exact hh⟩

theorem Obeys.refl (hl : Locked cfg s.c) (hh : Holdings cfg.toSettings s.g.store held s.c.item theirs) :
    Obeys cfg theirs s s :=
  .of_still hh hl rfl rfl rfl rfl rfl

/-- A state that reads nothing. -/
theorem Obeys.setState (hl : Locked cfg s.c) (hh : Holdings cfg.toSettings s.g.store held s.c.item theirs)
    {state : ConnState} (hs : state ≠ .nread) : Obeys cfg theirs s (s.setState state) :=
  .of_still hh (hl.setState hs) rfl rfl rfl rfl rfl

/-- `reset_cmd_handler` and `conn_cleanup` give the item back. -/
theorem dropItem_guest (h : Guest cfg c) (hh : Holdings cfg.toSettings g.store held c.item theirs) :
    Guest cfg (c.dropItem cfg.toSettings g).1 ∧ SameService cfg g (c.dropItem cfg.toSettings g).2 ∧
      ∃ held', Holdings cfg.toSettings (c.dropItem cfg.toSettings g).2.store held' (c.dropItem cfg.toSettings g).1.item theirs := by
  unfold Conn.dropItem
  cases hi : c.item with
  | none =>
    rw [hi] at hh
    refine ⟨h, .refl g, held, ?_⟩
    dsimp only
    rw [hi]
    exact hh
  | some it =>
    rw [hi] at hh
    obtain ⟨hh', hlookup⟩ := hh.remove
    exact ⟨h.of_same rfl rfl rfl rfl, ⟨hlookup, (env_doItemRemove cfg.toSettings g.store it).1, rfl⟩, _, hh'⟩

theorem dropItem_answer (cfg : Settings) (c : Conn) (g : Globals) : (c.dropItem cfg g).1.writeAndGo = c.writeAndGo ∧
    (c.dropItem cfg g).1.out = c.out ∧ (c.dropItem cfg g).1.state = c.state := by
  unfold Conn.dropItem
  split <;> exact ⟨rfl, rfl, rfl⟩

theorem resetCmdHandler_guest (hl : Locked cfg s.c) (hh : Holdings cfg.toSettings s.g.store held s.c.item theirs)
    (nreqs : Int) : Obeys cfg theirs s { s with
      c := (resetCmdHandler cfg.toSettings s.c s.g).1, g := (resetCmdHandler cfg.toSettings s.c s.g).2, nreqs := nreqs } := by
  have hguest : Guest cfg { s.c with cmd := -1, substate := BinSubstate.noState } := hl.of_same rfl rfl rfl rfl
  obtain ⟨hd, hservice, held', hh'⟩ := dropItem_guest hguest hh
  obtain ⟨hgo, hout, -⟩ := dropItem_answer cfg.toSettings { s.c with cmd := -1, substate := BinSubstate.noState } s.g
  refine ⟨.of_same hservice rfl rfl, .of_idle (hd.of_same rfl rfl rfl rfl) ?_ ?_ ?_, held', hh'⟩
  · unfold resetCmdHandler
    dsimp only
    split <;> nofun
  · exact fun he => hl.next (hgo.symm.trans he)
  · exact Eq.mpr (congrArg (SaysNothing cfg) hout) hl.out

/-- No retrieval has left items behind. -/
theorem dropIlist_none (cfg : Settings) (hi : c.ileft = 0) (g : Globals) :
    c.dropIlist cfg g = ({ c with icurr := c.icurr + c.ileft, ileft := 0 }, g) := by
  unfold Conn.dropIlist
  rw [hi]
  rfl

/-- `conn_cleanup` gives up the exchange too. -/
theorem connCleanup_guest (hl : Locked cfg c) (hs : c.state ≠ .nread)
    (hh : Holdings cfg.toSettings g.store held c.item theirs) :
    Locked cfg (connCleanup cfg.toSettings c g).1 ∧ SameService cfg g (connCleanup cfg.toSettings c g).2 ∧
      ∃ held', Holdings cfg.toSettings (connCleanup cfg.toSettings c g).2.store held'
        (connCleanup cfg.toSettings c g).1.item theirs := by
  obtain ⟨hd, hservice, held', hh'⟩ := dropItem_guest hl.toGuest hh
  obtain ⟨hgo, hout, hstate⟩ := dropItem_answer cfg.toSettings c g
  have hfree : Guest cfg { (c.dropItem cfg.toSettings g).1 with
      icurr := (c.dropItem cfg.toSettings g).1.icurr + (c.dropItem cfg.toSettings g).1.ileft, ileft := 0, sasl := none } :=
    ⟨hd.protocol, rfl, nofun⟩
  unfold connCleanup
  dsimp only
  rw [dropIlist_none cfg.toSettings hd.ileft]
  dsimp only
  split
  · refine ⟨.of_idle (hfree.of_same rfl rfl rfl rfl) nofun ?_ ?_, hservice, held', hh'⟩
    · exact fun he => hl.next (hgo.symm.trans he)
    · exact Eq.mpr (congrArg (SaysNothing cfg) hout) hl.out
  · refine ⟨.of_idle hfree ?_ ?_ ?_, hservice, held', hh'⟩
    · exact fun he => hs (hstate.symm.trans he)
    · exact fun he => hl.next (hgo.symm.trans he)
    · exact Eq.mpr (congrArg (SaysNothing cfg) hout) hl.out

theorem newCmdTurn_obeys (hl : Locked cfg s.c) (hh : Holdings cfg.toSettings s.g.store held s.c.item theirs)
    (ht : s.newCmdTurn cfg inp = some s') : Obeys cfg theirs s s' := by
  have hstill : ∀ (nreqs : Int) (stop : Bool), Obeys cfg theirs s { s with nreqs := nreqs, stop := stop } :=
    fun _ _ => .of_still hh hl rfl rfl rfl rfl rfl
  cases inp with
  | go =>
    unfold Session.newCmdTurn at ht
    dsimp only at ht
    split at ht
    · cases ht
      exact resetCmdHandler_guest hl hh _
    · cases ht
      exact hstill _ _
  | eventFailed =>
    unfold Session.newCmdTurn at ht
    dsimp only at ht
    split at ht
    · cases ht
      exact .of_still hh (hl.setState nofun) rfl rfl rfl rfl rfl
    · cases ht
      exact .refl hl hh
  | event | data bs | wrote n | again | error | noMemory =>
    cases ht
    exact .refl hl hh

theorem waitingTurn_obeys (hl : Locked cfg s.c) (hh : Holdings cfg.toSettings s.g.store held s.c.item theirs)
    (ht : s.waitingTurn inp = some s') : Obeys cfg theirs s s' := by
  cases inp with
  | go =>
    cases ht
    exact .of_still hh (hl.setState nofun) rfl rfl rfl rfl rfl
  | eventFailed =>
    cases ht
    exact .setState hl hh nofun
  | event | data bs | wrote n | again | error | noMemory =>
    cases ht
    exact .refl hl hh

theorem outString_guest (hl : Locked cfg c) {str : Bytes} (hr : GuestReply cfg (outLine str)) :
    Locked cfg (outString c str) ∧ (outString c str).item = c.item ∧ (outString c str).state ≠ .nread := by
  unfold outString
  split
  · exact ⟨.of_idle (hl.of_same rfl rfl rfl rfl) nofun hl.next hl.out, rfl, nofun⟩
  · exact ⟨.of_idle (hl.of_same rfl rfl rfl rfl) nofun nofun hr.saysNothing, rfl, nofun⟩

theorem tryReadUdp_guest (hl : Locked cfg c) (datagram : Bytes) :
    Locked cfg (tryReadUdp c datagram) ∧ (tryReadUdp c datagram).item = c.item := by
  unfold tryReadUdp
  split
  · split
    · obtain ⟨hl', hi, -⟩ := outString_guest hl .multiPacket
      exact ⟨hl'.setState nofun, hi⟩
    · exact ⟨.of_idle (hl.of_same rfl rfl rfl rfl) nofun hl.next hl.out, rfl⟩
  · exact ⟨hl.setState nofun, rfl⟩

theorem readMemoryError_guest (hl : Locked cfg c) (hs : c.state ≠ .nread) :
    Locked cfg (readMemoryError c) ∧ (readMemoryError c).item = c.item := by
  have hempty : Locked cfg { c with rbuf := [] } := .of_idle (hl.of_same rfl rfl rfl rfl) hs hl.next hl.out
  obtain ⟨hl', hi, hs'⟩ := outString_guest hempty .outOfMemory
  exact ⟨.of_idle (hl'.of_same rfl rfl rfl rfl) hs' nofun hl'.out, hi⟩

theorem readTurn_obeys (hl : Locked cfg s.c) (hr : s.c.state = .read)
    (hh : Holdings cfg.toSettings s.g.store held s.c.item theirs) (ht : s.readTurn inp = some s') : Obeys cfg theirs s s' := by
  unfold Session.readTurn at ht
  cases inp with
  | data bs =>
    dsimp only at ht
    split at ht
    · cases ht
      obtain ⟨hl', hi⟩ := tryReadUdp_guest hl bs
      exact .of_still hh hl' hi rfl rfl rfl rfl
    · split at ht
      · cases ht
        exact .setState hl hh nofun
      · cases ht
        exact .of_still hh (.of_idle (hl.of_same rfl rfl rfl rfl) nofun hl.next hl.out) rfl rfl rfl rfl rfl
  | again =>
    cases ht
    exact .of_still hh (hl.setState nofun) rfl rfl rfl rfl rfl
  | error =>
    cases ht
    refine .of_still hh (hl.setState ?_) rfl rfl rfl rfl rfl
    split <;> nofun
  | noMemory =>
    dsimp only at ht
    split at ht
    · cases ht
      exact .refl hl hh
    · cases ht
      obtain ⟨hl', hi⟩ := readMemoryError_guest hl (by rw [hr]; nofun)
      exact .of_still hh hl' hi rfl rfl rfl rfl
  | event | go | wrote n | eventFailed =>
    cases ht
    exact .refl hl hh

theorem Locked.rbuf (h : Locked cfg c) (bs : Bytes) : Locked cfg { c with rbuf := bs } := by
  refine ⟨h.of_same rfl rfl rfl rfl, fun hs => ?_, h.next, h.out⟩
  obtain ⟨hb, hr⟩ := h.reads hs
  refine ⟨hb, ?_⟩
  cases hr with
  | mech hsub hritem => exact .mech hsub hritem
  | challenge hsub hitem hritem => exact .challenge hsub hitem hritem

/-- The protocol of a packet that starts like a binary request, and of every other
connection. -/
theorem negotiate_guest (h : Guest cfg c) (hu : c.transport = .udp → c.rbuf0 = 0x80) :
    Guest cfg (negotiate c) ∧ (negotiate c).protocol = .binary ∧ (negotiate c).item = c.item ∧
      (negotiate c).writeAndGo = c.writeAndGo ∧ (negotiate c).out = c.out := by
  unfold negotiate
  by_cases ht : c.transport = .udp
  · rw [if_pos (.inr ht), hu ht]
    exact ⟨⟨fun _ => rfl, h.ileft, h.refused⟩, rfl, rfl, rfl, rfl⟩
  · have hb := h.protocol ht
    have hnot : ¬(c.protocol = .negotiating ∨ c.transport = .udp) := by
      rw [hb]
      exact fun hor => hor.elim nofun ht
    rw [if_neg hnot]
    exact ⟨h, hb, rfl, rfl, rfl⟩

theorem parseTurn_obeys (hlib : NamesAfterSuccess cfg.saslLib) (hsasl : cfg.sasl = true) (hl : Locked cfg s.c)
    (hp : s.c.state = .parseCmd) (hk : KeptOut cfg env s)
    (hh : Holdings cfg.toSettings s.g.store held s.c.item theirs) (ht : s.parseTurn cfg env inp = some s') :
    Obeys cfg theirs s s' := by
  cases inp with
  | go =>
    obtain ⟨hguest, hb, hitem, hgo, hout⟩ := negotiate_guest hl.toGuest fun hu => hk.packet hu hp
    have hn : (negotiate s.c).writeAndGo ≠ .nread := fun he => hl.next (hgo.symm.trans he)
    have ho : SaysNothing cfg (negotiate s.c).out := Eq.mpr (congrArg (SaysNothing cfg) hout) hl.out
    have hread : tryReadCommand cfg env s.c s.g = some (tryReadBinary cfg (negotiate s.c) s.g) := if_pos hb
    unfold Session.parseTurn at ht
    dsimp only at ht
    rw [hread] at ht
    cases ht
    unfold tryReadBinary
    by_cases hlen : (negotiate s.c).rbuf.length < HEADER_SIZE
    · rw [if_pos hlen]
      exact .of_still hh (.of_idle (hguest.of_same rfl rfl rfl rfl) nofun hn ho) hitem rfl rfl rfl (List.append_nil _)
    rw [if_neg hlen]
    dsimp only
    by_cases hmagic : (parseHeader ((negotiate s.c).rbuf.take HEADER_SIZE)).magic ≠ 0x80
    · rw [if_pos hmagic]
      exact .of_still hh (.of_idle (hguest.of_same rfl rfl rfl rfl) nofun hn ho) hitem rfl rfl rfl (List.append_nil _)
    rw [if_neg hmagic]
    dsimp only
    generalize parseHeader ((negotiate s.c).rbuf.take HEADER_SIZE) = h
    have hstart : Guest cfg (startRequest (negotiate s.c) h) := hguest.of_same rfl rfl rfl rfl
    obtain ⟨hl', hi, hcmd⟩ := dispatchBinCommand_guest hlib hsasl hstart hb hn saysNothing_nil
    refine ⟨⟨.refl s.g, ⟨[], (List.append_nil _).symm, _, .multiPacket, List.nil_infix⟩, ⟨[.request h], rfl, ?_⟩⟩,
      hl'.rbuf _, held, ?_⟩
    · rw [List.forall_mem_singleton]
      exact hcmd.elim .request fun hr => .refused ⟨hr.state, hr.next, hr.out⟩
    · have hsame : (dispatchBinCommand cfg (startRequest (negotiate s.c) h)).item = s.c.item := hi.trans hitem
      exact Eq.mpr (congrArg (Holdings cfg.toSettings s.g.store held · theirs) hsame) hh
  | event | data bs | wrote n | again | error | noMemory | eventFailed =>
    cases ht
    exact .refl hl hh

/-- Bytes for the item, or for the read buffer. -/
theorem receive_guest (hl : Locked cfg c) (hs : c.state = .nread) (hh : Holdings cfg.toSettings g.store held c.item theirs)
    (bs : Bytes) : Locked cfg (receive c g bs).1 ∧ SameService cfg g (receive c g bs).2 ∧
      ∃ held', Holdings cfg.toSettings (receive c g bs).2.store held' (receive c g bs).1.item theirs := by
  obtain ⟨hb, hr⟩ := hl.reads hs
  unfold receive
  dsimp only
  cases hr with
  | mech hsub hritem =>
    rw [hritem]
    exact ⟨⟨hl.of_same rfl rfl rfl rfl, fun _ => ⟨hb, .mech hsub rfl⟩, hl.next, hl.out⟩, .refl g, held, hh⟩
  | challenge hsub hitem hritem =>
    rw [hritem]
    dsimp only
    rw [hitem] at hh ⊢
    obtain ⟨hh', hlookup⟩ := hh.write _ bs
    exact ⟨⟨hl.of_same rfl rfl rfl rfl, fun _ => ⟨hb, .challenge hsub rfl rfl⟩, hl.next, hl.out⟩, ⟨hlookup, rfl, rfl⟩, held, hh'⟩

/-- `complete_nread` -/
theorem completeNreadConn_guest (hl : Locked cfg s.c) (hs : s.c.state = .nread) (h0 : s.c.rlbytes = 0) (hk : KeptOut cfg env s)
    (hh : Holdings cfg.toSettings s.g.store held s.c.item theirs)
    (hp : completeNreadConn cfg env s.c s.g = some (c', g')) :
    Locked cfg c' ∧ SameService cfg s.g g' ∧ ∃ held', Holdings cfg.toSettings g'.store held' c'.item theirs := by
  obtain ⟨hb, hr⟩ := hl.reads hs
  unfold completeNreadConn at hp
  rw [if_pos hb] at hp
  unfold completeNreadBinary at hp
  cases hr with
  | mech hsub hritem =>
    rw [hsub] at hp
    exact processBinSaslAuth_guest hl.toGuest hb hl.next hl.out hh (hk.spares hs h0 hsub) hp
  | challenge hsub hitem hritem =>
    rw [hsub] at hp
    rw [hitem] at hh
    obtain ⟨hl', rfl, hi⟩ := processBinCompleteSaslAuth_guest hl.toGuest hitem hh (hk.refused hs h0 hsub _ hitem) hp
    exact ⟨hl', .refl _, held, by rw [hi]; exact hh⟩

theorem nreadTurn_obeys (hl : Locked cfg s.c) (hs : s.c.state = .nread) (hk : KeptOut cfg env s)
    (hh : Holdings cfg.toSettings s.g.store held s.c.item theirs) (ht : s.nreadTurn cfg env inp = some s') :
    Obeys cfg theirs s s' := by
  unfold Session.nreadTurn at ht
  cases inp with
  | go =>
    dsimp only at ht
    split at ht
    · rename_i h0
      obtain ⟨⟨c', g'⟩, hp, ht⟩ := Option.map_eq_some_iff.mp ht
      cases ht
      obtain ⟨hl', hservice, hh'⟩ := completeNreadConn_guest hl hs h0 hk hh hp
      refine ⟨⟨hservice, ⟨[], (List.append_nil _).symm, _, .multiPacket, List.nil_infix⟩, ⟨[_], rfl, ?_⟩⟩, hl', hh'⟩
      exact List.forall_mem_singleton.mpr (.data _)
    · split at ht
      · cases ht
        exact .refl hl hh
      · split at ht
        · cases ht
        · cases ht
          obtain ⟨hl', hservice, hh'⟩ := receive_guest hl hs hh (s.c.rbuf.take s.c.rlbytes.toNat)
          exact ⟨.of_same hservice rfl rfl, hl'.rbuf _, hh'⟩
  | data bs =>
    dsimp only at ht
    split at ht
    · cases ht
      exact .refl hl hh
    · split at ht
      · cases ht
        exact .setState hl hh nofun
      · split at ht
        · cases ht
        · split at ht
          · cases ht
            exact .refl hl hh
          · cases ht
            obtain ⟨hl', hservice, hh'⟩ := receive_guest hl hs hh bs
            exact ⟨.of_same hservice rfl rfl, hl', hh'⟩
  | again =>
    dsimp only at ht
    split at ht
    · cases ht
      exact .refl hl hh
    · cases ht
      exact .of_still hh hl rfl rfl rfl rfl rfl
  | error =>
    dsimp only at ht
    split at ht
    · cases ht
      exact .refl hl hh
    · cases ht
      exact .of_still hh (hl.setState nofun) rfl rfl rfl rfl rfl
  | eventFailed =>
    dsimp only at ht
    split at ht
    · cases ht
      exact .refl hl hh
    · cases ht
      exact .setState hl hh nofun
  | event | wrote n | noMemory =>
    cases ht
    exact .refl hl hh

/-- Bytes that are swallowed. -/
theorem swallowTurn_obeys (hl : Locked cfg s.c) (hs : s.c.state = .swallow)
    (hh : Holdings cfg.toSettings s.g.store held s.c.item theirs) (ht : s.swallowTurn inp = some s') :
    Obeys cfg theirs s s' := by
  have hidle : s.c.state ≠ .nread := by
    rw [hs]
    nofun
  have hcount : ∀ (n : Int) (bs input : Bytes),
      Obeys cfg theirs s { s with c := { s.c with sbytes := n, rbuf := bs }, input := input } := fun _ _ _ =>
    .of_still hh (.of_idle (hl.of_same rfl rfl rfl rfl) hidle hl.next hl.out) rfl rfl rfl rfl rfl
  unfold Session.swallowTurn at ht
  cases inp with
  | go =>
    dsimp only at ht
    split at ht
    · cases ht
      exact .setState hl hh nofun
    · split at ht
      · cases ht
        exact .refl hl hh
      · split at ht
        · cases ht
        · cases ht
          exact hcount _ _ s.input
  | data bs =>
    dsimp only at ht
    split at ht
    · cases ht
      exact .refl hl hh
    · split at ht
      · cases ht
        exact .setState hl hh nofun
      · split at ht
        · cases ht
        · split at ht
          · cases ht
            exact .refl hl hh
          · cases ht
            exact hcount _ s.c.rbuf _
  | again =>
    dsimp only at ht
    split at ht
    · cases ht
      exact .refl hl hh
    · cases ht
      exact .of_still hh hl rfl rfl rfl rfl rfl
  | error =>
    dsimp only at ht
    split at ht
    · cases ht
      exact .refl hl hh
    · cases ht
      exact .of_still hh (hl.setState nofun) rfl rfl rfl rfl rfl
  | eventFailed =>
    dsimp only at ht
    split at ht
    · cases ht
      exact .refl hl hh
    · cases ht
      exact .setState hl hh nofun
  | event | wrote n | noMemory =>
    cases ht
    exact .refl hl hh

theorem writeTurn_obeys (hl : Locked cfg s.c) (hs : s.c.state = .write ∨ s.c.state = .mwrite)
    (hh : Holdings cfg.toSettings s.g.store held s.c.item theirs) (ht : s.writeTurn cfg inp = some s') :
    Obeys cfg theirs s s' := by
  have hidle : s.c.state ≠ .nread := by
    obtain h | h := hs
    · rw [h]
      nofun
    · rw [h]
      nofun
  unfold Session.writeTurn at ht
  cases inp with
  | go =>
    dsimp only at ht
    split at ht
    · cases ht
      unfold Session.transmitComplete
      split
      · rw [dropIlist_none cfg.toSettings hl.ileft]
        dsimp only
        refine .of_still hh (.of_idle ⟨hl.protocol, rfl, hl.refused⟩ ?_ hl.next hl.out) rfl rfl rfl rfl rfl
        dsimp only
        split
        · exact hl.next
        · nofun
      · exact .setState hl hh hl.next
    · cases ht
      exact .refl hl hh
  | wrote n =>
    dsimp only at ht
    split at ht
    · cases ht
      exact .refl hl hh
    · cases ht
      obtain ⟨reply, hr, hout⟩ := hl.out
      have hpart : s.c.out.take n <:+: reply := (List.take_prefix n s.c.out).isInfix.trans hout.isInfix
      refine ⟨⟨.refl s.g, ⟨_, rfl, reply, hr, hpart⟩, ⟨[], (List.append_nil _).symm, nofun⟩⟩, ?_, held, hh⟩
      exact .of_idle (hl.of_same rfl rfl rfl rfl) hidle hl.next (hl.out.drop n)
  | again =>
    dsimp only at ht
    split at ht
    · cases ht
      exact .refl hl hh
    · cases ht
      exact .of_still hh hl rfl rfl rfl rfl rfl
  | eventFailed =>
    dsimp only at ht
    split at ht
    · cases ht
      exact .refl hl hh
    · cases ht
      exact .setState hl hh nofun
  | error =>
    dsimp only at ht
    split at ht
    · cases ht
      exact .refl hl hh
    · cases ht
      refine .of_still hh (hl.setState ?_) rfl rfl rfl rfl rfl
      split <;> nofun
  | event | data bs | noMemory =>
    cases ht
    exact .refl hl hh

theorem closingTurn_obeys (hl : Locked cfg s.c) (hs : s.c.state = .closing)
    (hh : Holdings cfg.toSettings s.g.store held s.c.item theirs) (ht : s.closingTurn cfg inp = some s') :
    Obeys cfg theirs s s' := by
  have hidle : s.c.state ≠ .nread := by
    rw [hs]
    nofun
  obtain ⟨hl', hservice, hh'⟩ := connCleanup_guest hl hidle hh
  cases inp with
  | go =>
    unfold Session.closingTurn at ht
    dsimp only at ht
    split at ht
    · cases ht
      exact ⟨.of_same hservice rfl rfl, hl', hh'⟩
    · cases ht
      exact ⟨.of_same hservice rfl rfl, hl'.setState nofun, hh'⟩
  | event | data bs | wrote n | again | error | noMemory | eventFailed =>
    cases ht
    exact .refl hl hh

/-- Every turn of a connection that is kept out. -/
theorem turn_obeys (hlib : NamesAfterSuccess cfg.saslLib) (hsasl : cfg.sasl = true) (hl : Locked cfg s.c)
    (hk : KeptOut cfg env s) (hh : Holdings cfg.toSettings s.g.store held s.c.item theirs)
    (ht : s.turn cfg env inp = some s') : Obeys cfg theirs s s' := by
  unfold Session.turn at ht
  split at ht
  · split at ht
    · cases ht
      exact .of_still hh hl rfl rfl rfl rfl rfl
    · cases ht
      exact .refl hl hh
  · cases hs : s.c.state with
    | newCmd =>
      rw [hs] at ht
      exact newCmdTurn_obeys hl hh ht
    | waiting =>
      rw [hs] at ht
      exact waitingTurn_obeys hl hh ht
    | read =>
      rw [hs] at ht
      exact readTurn_obeys hl hs hh ht
    | parseCmd =>
      rw [hs] at ht
      exact parseTurn_obeys hlib hsasl hl hs hk hh ht
    | nread =>
      rw [hs] at ht
      exact nreadTurn_obeys hl hs hk hh ht
    | swallow =>
      rw [hs] at ht
      exact swallowTurn_obeys hl hs hh ht
    | write =>
      rw [hs] at ht
      exact writeTurn_obeys hl (.inl hs) hh ht
    | mwrite =>
      rw [hs] at ht
      exact writeTurn_obeys hl (.inr hs) hh ht
    | closing =>
      rw [hs] at ht
      exact closingTurn_obeys hl hs hh ht
    | closed =>
      rw [hs] at ht
      cases ht
      exact .refl hl hh

/-! ## All connections of a peer -/

/-- A server and the connections of a peer to it, with its UDP sockets. Each session is
continued with what the server shares. -/
structure Guests where
  g : Globals
  conns : Nat → Session

/-- A turn of a connection, or what the other connections do. -/
inductive GuestEvent where
  | turn (i : Nat) (env : Env) (inp : Input)
  | others (g : Globals)

def Guests.session (G : Guests) (i : Nat) : Session := { G.conns i with g := G.g }

def Guests.after (G : Guests) (i : Nat) (s' : Session) : Guests := ⟨s'.g, Function.update G.conns i s'⟩

@[simp]
theorem Guests.session_after (G : Guests) (i : Nat) (s' : Session) : (G.after i s').session i = s' := by
  simp [Guests.session, Guests.after]

/-- Each connection refers to its item alone, which is not stored. -/
def ItemsSafe (cfg : Config) (g : Globals) (conns : Nat → Session) : Prop :=
  ∃ held, StoreOk cfg.toSettings g.store held ∧ ∀ i it, (conns i).c.item = some it →
    0 < held it ∧ (g.store.mem it).linked = false ∧ ∀ j, j ≠ i → (conns j).c.item ≠ some it

/-- The other connections do what keeps the store in order and takes no item from these. -/
def GuestStep (cfg : Config) (G : Guests) : GuestEvent → Guests → Prop
  | .turn i env inp, G' => ∃ s', (G.session i).turn cfg env inp = some s' ∧ G' = G.after i s'
  | .others g, G' => ItemsSafe cfg g G.conns ∧ G' = ⟨g, G.conns⟩

/-- The connections wait for their first event. -/
def guestsInit (cfg : Config) (kind : Nat → Transport) (addr : Nat → Nat) (g : Globals) : Guests :=
  ⟨g, fun i => connSession (connNew cfg (addr i) (if kind i = .udp then .read else .newCmd) (kind i)) g⟩

def KeepsOut (cfg : Config) (G : Guests) : GuestEvent → Prop
  | .turn i env _ => KeptOut cfg env (G.session i)
  | .others _ => True

/-- The turns of the peer are innocent. -/
def Harmless (cfg : Config) (G : Guests) : GuestEvent → Guests → Prop
  | .turn i _ _, G' => Innocent cfg (G.session i) (G'.session i)
  | .others _, _ => True

structure GuestsOk (cfg : Config) (G : Guests) : Prop where
  locked : ∀ i, Locked cfg (G.conns i).c
  items : ItemsSafe cfg G.g G.conns

theorem guestsOk_init (hbind : cfg.bindingProtocol = .binary) (hg : StoreOk cfg.toSettings g.store held)
    (kind : Nat → Transport) (addr : Nat → Nat) : GuestsOk cfg (guestsInit cfg kind addr g) := by
  refine ⟨fun i => ?_, held, hg, fun i it hi => nomatch hi⟩
  have hstate : (if kind i = .udp then ConnState.read else .newCmd) ≠ .nread := by
    split <;> nofun
  exact .of_idle ⟨fun _ => hbind, rfl, nofun⟩ hstate hstate saysNothing_nil

/-- The items of the connections other than `i`. -/
def othersItems (conns : Nat → Session) (i : Nat) (p : Ptr) : Prop := ∃ j, j ≠ i ∧ (conns j).c.item = some p

theorem ItemsSafe.holds {conns : Nat → Session} (h : ItemsSafe cfg g conns) (i : Nat) :
    ∃ held, Holdings cfg.toSettings g.store held (conns i).c.item (othersItems conns i) := by
  obtain ⟨held, hok, hitems⟩ := h
  refine ⟨held, hok, fun it hi => ?_, fun p ⟨j, _, hj⟩ => ?_⟩
  · obtain ⟨hheld, hl, hothers⟩ := hitems i it hi
    exact ⟨hheld, hl, fun ⟨j, hne, hj⟩ => hothers j hne hj⟩
  · obtain ⟨hheld, hl, -⟩ := hitems j p hj
    exact ⟨hheld, hl⟩

theorem Holdings.safe {conns : Nat → Session} {i : Nat}
    (h : Holdings cfg.toSettings s'.g.store held s'.c.item (othersItems conns i))
    (hapart : ∀ j k it, j ≠ k → (conns j).c.item = some it → (conns k).c.item ≠ some it) :
    ItemsSafe cfg s'.g (Function.update conns i s') := by
  refine ⟨held, h.ok, fun j it hj => ?_⟩
  by_cases hji : j = i
  · rw [hji, Function.update_self] at hj
    obtain ⟨hheld, hl, hnot⟩ := h.mine it hj
    refine ⟨hheld, hl, fun k hk he => hnot ⟨k, hji ▸ hk, ?_⟩⟩
    rwa [Function.update_of_ne (hji ▸ hk)] at he
  · rw [Function.update_of_ne hji] at hj
    obtain ⟨hheld, hl⟩ := h.theirs it ⟨j, hji, hj⟩
    refine ⟨hheld, hl, fun k hk he => ?_⟩
    by_cases hki : k = i
    · rw [hki, Function.update_self] at he
      exact (h.mine it he).2.2 ⟨j, hji, hj⟩
    · rw [Function.update_of_ne hki] at he
      exact hapart j k it (Ne.symm hk) hj he

theorem GuestsOk.step {G G' : Guests} {e : GuestEvent} (hlib : NamesAfterSuccess cfg.saslLib) (hsasl : cfg.sasl = true)
    (h : GuestsOk cfg G) (hk : KeepsOut cfg G e) (hs : GuestStep cfg G e G') : GuestsOk cfg G' ∧ Harmless cfg G e G' := by
  cases e with
  | others g =>
    obtain ⟨hsafe, rfl⟩ := hs
    exact ⟨⟨h.locked, hsafe⟩, trivial⟩
  | turn i env inp =>
    obtain ⟨s', ht, rfl⟩ := hs
    obtain ⟨held, hh⟩ := h.items.holds i
    have hl : Locked cfg (G.session i).c := h.locked i
    obtain ⟨hinnocent, hl', held', hh'⟩ := turn_obeys hlib hsasl hl hk hh ht
    have hapart : ∀ j k it, j ≠ k → (G.conns j).c.item = some it → (G.conns k).c.item ≠ some it := by
      intro j k it hne hj
      obtain ⟨_, _, hitems⟩ := h.items
      exact (hitems j it hj).2.2 k (Ne.symm hne)
    refine ⟨⟨fun j => ?_, hh'.safe hapart⟩, ?_⟩
    · change Locked cfg (Function.update G.conns i s' j).c
      by_cases hji : j = i
      · rw [hji, Function.update_self]
        exact hl'
      · rw [Function.update_of_ne hji]
        exact h.locked j
    · change Innocent cfg (G.session i) ((G.after i s').session i)
      rw [Guests.session_after]
      exact hinnocent

/-- In every run whose packets start like binary requests, in which no SASL exchange of
these connections succeeds and the data of one makes no stored item way, the peer changes
neither the store nor the settings, is sent nothing of the store, and nothing is executed
for it but VERSION and the SASL commands. -/
theorem guests_do_no_harm (hlib : NamesAfterSuccess cfg.saslLib) (hsasl : cfg.sasl = true)
    (hbind : cfg.bindingProtocol = .binary) {kind : Nat → Transport} {addr : Nat → Nat} {es : List GuestEvent}
    {G G' : Guests} {e : GuestEvent} (hg : StoreOk cfg.toSettings g.store held)
    (hr : Run (Guarded (KeepsOut cfg) (GuestStep cfg)) (guestsInit cfg kind addr g) es G)
    (hs : Guarded (KeepsOut cfg) (GuestStep cfg) G e G') : Harmless cfg G e G' := by
  have hok : GuestsOk cfg G :=
    hr.invariant_of_guard (fun _ _ _ h hk ht => (h.step hlib hsasl hk ht).1) (guestsOk_init hbind hg kind addr)
  exact (hok.step hlib hsasl hs.1 hs.2).2

/-! ### Two datagrams -/

/-- A server with SASL whose library refuses everybody. -/
def saslServer : Config := { smallServer with bindingProtocol := .binary, sasl := true }

theorem saslServer_names : NamesAfterSuccess saslServer.saslLib := nofun

/-- Its UDP sockets, idle. -/
def udpSockets : Guests := guestsInit saslServer (fun _ => .udp) (fun _ => 4096) (globalsInit 16)

/-- The first of them has an event. -/
def woken : Session := { udpSockets.session 0 with stop := false, nreqs := 20 }

/-- It has received a datagram. -/
def datagramRead (bs : Bytes) : Session := { woken with c := tryReadUdp woken.c bs, input := woken.input ++ bs }

def afterDatagram (bs : Bytes) : Guests := (udpSockets.after 0 woken).after 0 (datagramRead bs)

theorem afterDatagram_reached (bs : Bytes) : Run (Guarded (KeepsOut saslServer) (GuestStep saslServer)) udpSockets
    [.turn 0 default .event, .turn 0 default (.data bs)] (afterDatagram bs) := by
  have hidle : ∀ G : Guests, ∀ inp, (G.session 0).c.state = .read → KeepsOut saslServer G (.turn 0 default inp) := by
    intro G inp hs
    refine ⟨fun _ h => ?_, fun h => ?_, fun h => ?_⟩
    all_goals
      rw [hs] at h
      cases h
  refine .cons ⟨hidle _ _ rfl, woken, rfl, rfl⟩ (.single ⟨hidle _ _ ?_, datagramRead bs, ?_, rfl⟩)
  · rw [Guests.session_after]
    rfl
  · rw [Guests.session_after]
    rfl

/-- The frame header of a datagram of one packet. -/
def udpFrame : Bytes := [0, 0, 0, 0, 0, 1, 0, 0]

/-- A VERSION request. -/
def versionDatagram : Bytes := udpFrame ++ 0x80 :: 0x0b :: List.replicate 22 0

/-- `verbosity 1` -/
def verbosityDatagram : Bytes := udpFrame ++ ascii "verbosity 1" ++ [CR, LF]

theorem guests_do_no_harm_version : ∃ G', GuestStep saslServer (afterDatagram versionDatagram) (.turn 0 default .go) G' ∧
    Harmless saslServer (afterDatagram versionDatagram) (.turn 0 default .go) G' := by
  have hfacts : ((datagramRead versionDatagram).turn saslServer default .go).isSome = true ∧
      (datagramRead versionDatagram).c.rbuf0 = 0x80 ∧ (datagramRead versionDatagram).c.state = .parseCmd := by
    decide +kernel
  have hsession : (afterDatagram versionDatagram).session 0 = datagramRead versionDatagram := Guests.session_after ..
  rw [← hsession] at hfacts
  obtain ⟨hsome, hbyte, hstate⟩ := hfacts
  obtain ⟨s', ht⟩ := Option.isSome_iff_exists.mp hsome
  have hk : KeepsOut saslServer (afterDatagram versionDatagram) (.turn 0 default .go) := by
    refine ⟨fun _ _ => hbyte, fun h => ?_, fun h => ?_⟩
    all_goals
      rw [hstate] at h
      cases h
  have hstep : GuestStep saslServer (afterDatagram versionDatagram) (.turn 0 default .go) _ := ⟨s', ht, rfl⟩
  exact ⟨_, hstep, guests_do_no_harm saslServer_names rfl rfl (storeOk_init saslServer.toSettings 16)
    (afterDatagram_reached versionDatagram) ⟨hk, hstep⟩⟩

/-- The text protocol is open to every datagram. -/
theorem verbosity_by_datagram : NamesAfterSuccess saslServer.saslLib ∧ saslServer.sasl = true ∧
    saslServer.bindingProtocol = .binary ∧ (∀ calls call, saslServer.saslLib.answer calls call ≠ .OK) ∧
    ∃ es G G', Run (GuestStep saslServer) udpSockets es G ∧ GuestStep saslServer G (.turn 0 default .go) G' ∧
      G.g.verbose = 0 ∧ G'.g.verbose = 1 := by
  have hverbose : ((datagramRead verbosityDatagram).turn saslServer default .go).map (·.g.verbose) = some 1 := by
    decide +kernel
  have hsession : (afterDatagram verbosityDatagram).session 0 = datagramRead verbosityDatagram := Guests.session_after ..
  rw [← hsession] at hverbose
  obtain ⟨s', ht, hv⟩ := Option.map_eq_some_iff.mp hverbose
  refine ⟨saslServer_names, rfl, rfl, nofun, [.turn 0 default .event, .turn 0 default (.data verbosityDatagram)],
    afterDatagram verbosityDatagram, (afterDatagram verbosityDatagram).after 0 s', ?_, ⟨s', ht, rfl⟩, rfl, hv⟩
  exact (afterDatagram_reached verbosityDatagram).mono fun _ _ _ h => h.2

end RamCube
