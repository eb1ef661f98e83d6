import RamCube.Backup.Neighbors
import RamCube.Server.Parsing

/-! # The role of a connection (ramcube.c)

A connection starts as one of a client. A TYPE line gives it the role of a peer, and the
commands that test a role go by it from then on: nothing else changes the role
(`turn_mType`). -/
namespace RamCube

variable {cfg : Config} {env : Env} {c c' : Conn} {g g' : Globals} {t : Tokens} {s s' : Session}

/-! ## What keeps the role -/

@[simp] theorem outString_mType (c : Conn) (str : Bytes) : (outString c str).mType = c.mType := by
  unfold outString
  split <;> rfl

@[simp] theorem setNoreplyMaybe_mType (c : Conn) (t : Tokens) : (setNoreplyMaybe c t).mType = c.mType := by
  unfold setNoreplyMaybe
  split <;> rfl

@[simp] theorem writeAndFree_mType (c : Conn) (buf : Bytes) : (writeAndFree c buf).mType = c.mType := rfl

theorem processGetKeys_mType {returnCas : Bool} {keys : List Bytes} {i : Nat} {out : Bytes} :
    (processGetKeys cfg returnCas keys i out c g).1.mType = c.mType := by
  induction keys generalizing i out c g with
  | nil => rfl
  | cons key keys ih =>
    unfold processGetKeys
    split
    · simp
    · split
      · rw [ih]
      · rw [ih]

theorem startUpdate_mType {comm : NRead} {key : Bytes} {flags exptime vlen : Int} {reqCas : UInt64} :
    (startUpdate cfg env c g comm key flags exptime vlen reqCas).1.mType = c.mType := by
  unfold startUpdate
  split
  · exact outString_mType ..
  · rfl

theorem processUpdateCommand_mType {comm : NRead} {handleCas : Bool} :
    (processUpdateCommand cfg env c g t comm handleCas).1.mType = c.mType := by
  rw [← setNoreplyMaybe_mType c t]
  unfold processUpdateCommand
  dsimp only
  split
  · exact outString_mType ..
  · split
    · split
      · split
        · exact outString_mType ..
        · exact startUpdate_mType
      · exact outString_mType ..
    · exact outString_mType ..

theorem processTouchCommand_mType : (processTouchCommand cfg c g t).1.mType = c.mType := by
  unfold processTouchCommand
  dsimp only
  split
  · simp
  · split
    · split <;> simp
    · simp

theorem processArithmeticCommand_mType {incr : Bool} :
    (processArithmeticCommand cfg env c g t incr).1.mType = c.mType := by
  unfold processArithmeticCommand
  dsimp only
  split
  · simp
  · split
    · split <;> simp
    · simp

theorem processDeleteCommand_mType : (processDeleteCommand cfg c g t).1.mType = c.mType := by
  unfold processDeleteCommand
  dsimp only
  split_ifs <;> first | simp | (split <;> simp)

theorem processStat_mType : (processStat env c g t).1.mType = c.mType := by
  unfold processStat processStatsDetail processStatsCachedump
  dsimp only
  split_ifs <;> first | simp | (split <;> first | simp | (split <;> simp))

theorem processFlushAll_mType (h : processFlushAll cfg c g t = some (c', g')) : c'.mType = c.mType := by
  unfold processFlushAll at h
  dsimp only at h
  rw [← setNoreplyMaybe_mType c t]
  generalize setNoreplyMaybe c t = c₁ at h ⊢
  by_cases h1 : t.ntokens = if c₁.noreply then 3 else 2
  · rw [if_pos h1] at h
    cases h
    simp
  rw [if_neg h1] at h
  by_cases h2 : t.ntokens = 2
  · rw [if_pos h2] at h
    cases h
  rw [if_neg h2] at h
  split at h <;> cases h <;> simp

theorem processSlabsCommand_mType : (processSlabsCommand cfg env c g t).1.mType = c.mType := by
  unfold processSlabsCommand processSlabsReassign processSlabsAutomoveCommand
  dsimp only
  split_ifs <;> first | simp | skip
  all_goals split <;> simp

theorem processVerbosityCommand_mType : (processVerbosityCommand c g t).1.mType = c.mType := by
  unfold processVerbosityCommand
  simp

/-! ### Storage commands -/

theorem completeNreadAscii_mType (h : completeNreadAscii cfg env c g = some (c', g')) : c'.mType = c.mType := by
  unfold completeNreadAscii at h
  simp only [Option.bind_eq_bind, Option.bind_eq_some_iff, Option.some.injEq, Prod.mk.injEq] at h
  obtain ⟨it, _, ⟨c1, g1⟩, hs, rfl, _⟩ := h
  dsimp only
  unfold storeBlock at hs
  split at hs
  swap
  · cases hs
    simp
  obtain ⟨comm, _, hs⟩ := Option.bind_eq_some_iff.mp hs
  unfold storeReply storeItem at hs
  dsimp only at hs
  split at hs
  · split at hs
    · cases hs
      simp
    · obtain ⟨⟨g2, rtn⟩, _, hs⟩ := Option.map_eq_some_iff.mp hs
      dsimp only at hs
      split at hs <;> cases hs <;> simp
  all_goals
    cases hs
    simp

@[simp] theorem writeBinError_mType (c : Conn) (err : BinStatus) (swallow : Int) :
    (writeBinError c err swallow).mType = c.mType := by
  unfold writeBinError
  dsimp only
  split <;> rfl

@[simp] theorem binErrorSwallow_mType (c : Conn) (err : BinStatus) (vlen : Int) :
    (binErrorSwallow c err vlen).mType = c.mType := by simp [binErrorSwallow]

@[simp] theorem writeBinResponse_mType (c : Conn) (d : Bytes) (hlen keylen : Nat) :
    (writeBinResponse c d hlen keylen).mType = c.mType := by
  unfold writeBinResponse
  split <;> rfl

@[simp] theorem initSaslConn_mType (c : Conn) : (initSaslConn cfg c).mType = c.mType := by
  unfold initSaslConn
  split
  · rfl
  · split
    · rfl
    · split <;> rfl

@[simp] theorem handleBinaryProtocolError_mType (c : Conn) : (handleBinaryProtocolError c).mType = c.mType := by
  simp [handleBinaryProtocolError]

@[simp] theorem binReadKey_mType (c : Conn) (next : BinSubstate) (extra : Nat) :
    (binReadKey c next extra).mType = c.mType := rfl

@[simp] theorem readValue_mType (c : Conn) (it : Ptr) (vlen : Int) (next : BinSubstate) :
    (readValue c it vlen next).mType = c.mType := rfl

@[simp] theorem itemResponse_mType (c : Conn) (it : Ptr) (i : Item) (key value : Bytes) :
    (itemResponse c it i key value).mType = c.mType := rfl

@[simp] theorem missResponse_mType (c : Conn) (withKey : Bool) : (missResponse c withKey).mType = c.mType := by
  unfold missResponse
  split_ifs <;> simp

theorem binListSaslMechs_mType (c : Conn) : (binListSaslMechs cfg c).mType = c.mType := by
  unfold binListSaslMechs
  split
  · simp
  · dsimp only
    split <;> simp

/-- A branch that is taken keeps the role. -/
def KeepsRole (c : Conn) (o : Option Conn) : Prop := ∀ c', o = some c' → c'.mType = c.mType

theorem KeepsRole.some (h : c'.mType = c.mType) : KeepsRole c (Option.some c') := by
  intro d hd
  cases hd
  exact h

theorem KeepsRole.none : KeepsRole c Option.none := by
  intro d hd
  cases hd

theorem KeepsRole.ite {p : Prop} [Decidable p] {a b : Option Conn} (ha : KeepsRole c a) (hb : KeepsRole c b) :
    KeepsRole c (if p then a else b) := by
  split
  · exact ha
  · exact hb

theorem dispatchBinOpcode_mType : KeepsRole c (dispatchBinOpcode cfg c) := by
  unfold dispatchBinOpcode
  dsimp only
  have hresponse : ∀ d, KeepsRole c (Option.some (writeBinResponse c d 0 0)) := fun d => .some (writeBinResponse_mType ..)
  have hread : ∀ next extra, KeepsRole c (Option.some (binReadKey c next extra)) := fun _ _ => .some rfl
  refine .ite (.ite (hresponse _) .none) (.ite (.ite (hread _ _) .none) (.ite (.ite (hresponse _) .none) ?_))
  refine .ite (.ite (hread _ _) .none) (.ite (.ite (hread _ _) .none) (.ite (.ite (hread _ _) .none) ?_))
  refine .ite (.ite (hread _ _) .none) (.ite (.ite (hread _ _) .none) (.ite (.ite (hread _ _) .none) ?_))
  refine .ite (.ite (.some ?_) .none) (.ite (.ite (.some (binListSaslMechs_mType c)) .none) ?_)
  · split <;> exact writeBinResponse_mType ..
  refine .ite (.ite (hread _ _) .none) (.ite (.ite (hread _ _) .none) ?_)
  exact .some (writeBinError_mType ..)

theorem dispatchBinCommand_mType : (dispatchBinCommand cfg c).mType = c.mType := by
  have hopcode : ∀ d : Conn, ((dispatchBinOpcode cfg d).getD (handleBinaryProtocolError d)).mType = d.mType := by
    intro d
    cases hd : dispatchBinOpcode cfg d with
    | none => simp
    | some d' => exact dispatchBinOpcode_mType d' hd
  unfold dispatchBinCommand
  split
  · exact writeBinError_mType ..
  · split
    · exact handleBinaryProtocolError_mType _
    · rw [hopcode]
      split <;> rfl

theorem storeItem_mType (it : Ptr) (comm : NRead) : (storeItem cfg env c g it comm).1.mType = c.mType := rfl

theorem completeUpdateBin_mType (h : completeUpdateBin cfg env c g = some (c', g')) : c'.mType = c.mType := by
  unfold completeUpdateBin at h
  simp only [Option.bind_eq_bind, Option.bind_eq_some_iff, Option.some.injEq, Prod.mk.injEq] at h
  obtain ⟨it, _, comm, _, rfl, _⟩ := h
  dsimp only
  split <;> simp [storeItem_mType]

theorem completeIncrBin_mType : (completeIncrBin cfg env c g).1.mType = c.mType := by
  unfold completeIncrBin incrInitial
  dsimp only
  split
  · split <;> simp
  · simp
  · simp
  · split
    · simp
    · split
      · simp
      · dsimp only
        split <;> simp [storeItem_mType]
  · simp

theorem completeNreadBinary_mType (h : completeNreadBinary cfg env c g = some (c', g')) : c'.mType = c.mType := by
  unfold completeNreadBinary at h
  split at h
  · split at h
    · unfold processBinAppendPrepend at h
      obtain ⟨⟨s, o⟩, _, h⟩ := Option.bind_eq_some_iff.mp h
      cases o <;> cases h <;> simp [updateFailed]
    · unfold processBinUpdate at h
      obtain ⟨⟨s, o⟩, _, h⟩ := Option.bind_eq_some_iff.mp h
      cases o <;> cases h <;> simp [updateFailed]
  · exact completeUpdateBin_mType h
  · unfold processBinGet at h
    split at h <;> cases h <;> simp
  · unfold processBinTouch at h
    dsimp only at h
    split at h <;> cases h <;> simp
  · unfold processBinStat at h
    split_ifs at h <;> cases h <;> simp
  · unfold processBinDelete at h
    split at h <;> cases h <;> simp
  · rw [← (Prod.mk.inj (Option.some.inj h)).1]
    exact completeIncrBin_mType
  · cases h
    exact writeBinResponse_mType ..
  · unfold processBinSaslAuth at h
    dsimp only at h
    split_ifs at h
    · cases h
      simp
    · cases h
      simp
    · obtain ⟨⟨s, o⟩, _, h⟩ := Option.bind_eq_some_iff.mp h
      cases o <;> cases h <;> simp
  · unfold processBinCompleteSaslAuth at h
    obtain ⟨it, _, h⟩ := Option.bind_eq_some_iff.mp h
    dsimp only at h
    split at h <;> cases h <;> simp
  · cases h

/-! ### Text commands -/

/-- The words of a TYPE line. -/
def IsType (t : Tokens) : Prop := t.ntokens = 4 ∧ t.value 0 = ascii "TYPE"

theorem ramcubeProcessCommands_mType {leftCom : Bytes} {rtn : Int}
    (ht : ¬(IsType t ∧ c.mType = .DATA_SERVER)) (h : ramcubeProcessCommands env c g t leftCom = some (c', g', rtn)) : c'.mType = c.mType := by
  unfold ramcubeProcessCommands at h
  dsimp only at h
  rw [if_neg fun h => ht ⟨⟨h.1, h.2.1⟩, h.2.2⟩] at h
  split_ifs at h
  · obtain ⟨⟨b, text⟩, _, h⟩ := Option.map_eq_some_iff.mp h
    cases h
    simp
  · cases h
    rfl
  · cases h
    rfl
  · cases h
    simp
  · cases h
    rfl

theorem processOther_mType {leftCom : Bytes} {rtn : Int}
    (ht : cfg.ramcubeMode = true → ¬(IsType t ∧ c.mType = .DATA_SERVER))
    (h : processOther cfg env c g t leftCom = some (c', g', rtn)) : c'.mType = c.mType := by
  unfold processOther at h
  split at h
  swap
  · cases h
    simp
  obtain ⟨⟨c1, g1, n⟩, hproc, h⟩ := Option.map_eq_some_iff.mp h
  have hkeep := ramcubeProcessCommands_mType (ht ‹_›) hproc
  dsimp only at h
  split_ifs at h <;> cases h <;> simpa using hkeep

theorem processCommand_mType {command leftCom : Bytes} {rtn : Int}
    (ht : cfg.ramcubeMode = true → ¬(IsType (tokenizeCommand command) ∧ c.mType = .DATA_SERVER))
    (h : processCommand cfg env c g command leftCom = some (c', g', rtn)) : c'.mType = c.mType := by
  unfold processCommand at h
  dsimp only at h
  split at h
  · cases h
    exact processGetKeys_mType
  · cases h
    exact processUpdateCommand_mType
  · cases h
    exact processArithmeticCommand_mType
  · cases h
    exact processDeleteCommand_mType
  · cases h
    exact processTouchCommand_mType
  · cases h
    exact processStat_mType
  · obtain ⟨⟨c1, g1⟩, hf, h⟩ := Option.bind_eq_some_iff.mp h
    cases h
    exact processFlushAll_mType hf
  · cases h
    simp
  · cases h
    rfl
  · cases h
    exact processSlabsCommand_mType
  · cases h
    exact processVerbosityCommand_mType
  · exact processOther_mType ht h

/-! ### A turn -/

/-- The turn runs a TYPE line. -/
structure TypeNext (cfg : Config) (s : Session) : Prop where
  running : s.stop = false
  state : s.c.state = .parseCmd
  text : (negotiate s.c).protocol ≠ .binary
  ends : LF ∈ s.c.rbuf
  ramcube : cfg.ramcubeMode = true
  line : IsType (tokenizeCommand (commandLine s))
  role : s.c.mType = .DATA_SERVER

theorem tryReadCommand_mType {p : Parsed} (hst : s.stop = false) (hs : s.c.state = .parseCmd) (hn : ¬TypeNext cfg s)
    (h : tryReadCommand cfg env s.c s.g = some p) : p.c.mType = s.c.mType := by
  have hneg := negotiate_mType s.c
  have hrbuf : (negotiate s.c).rbuf = s.c.rbuf := (negotiate_same s.c).1
  unfold tryReadCommand at h
  dsimp only at h
  by_cases hb : (negotiate s.c).protocol = .binary
  · rw [if_pos hb] at h
    cases h
    unfold tryReadBinary
    split
    · exact hneg
    · dsimp only
      split
      · exact hneg
      · exact dispatchBinCommand_mType.trans hneg
  rw [if_neg hb] at h
  by_cases hlf : LF ∈ s.c.rbuf
  · have hd := dropWhile_nextLine hlf
    rw [← hrbuf] at hd
    rw [tryReadAscii_line hd] at h
    obtain ⟨⟨c1, g1, rtn⟩, hproc, rfl⟩ := Option.map_eq_some_iff.mp h
    refine (processCommand_mType (c := { negotiate s.c with out := [] }) (fun hr ht => hn ?_) hproc).trans hneg
    rw [hrbuf] at ht
    exact ⟨hst, hs, hb, hlf, hr, ht.1, hneg.symm.trans ht.2⟩
  · have hd : (negotiate s.c).rbuf.dropWhile (· != LF) = [] := by
      rw [hrbuf, List.dropWhile_eq_nil_iff]
      exact fun b hb => bne_iff_ne.mpr fun h => hlf (h ▸ hb)
    rw [tryReadAscii_no_line hd] at h
    split at h <;> cases h <;> exact hneg

theorem dropItem_mType (cfg : Settings) (c : Conn) (g : Globals) : (c.dropItem cfg g).1.mType = c.mType := by
  unfold Conn.dropItem
  split <;> rfl

theorem connCleanup_mType (cfg : Settings) (c : Conn) (g : Globals) : (connCleanup cfg c g).1.mType = c.mType := by
  have hdrop := dropItem_mType cfg c g
  unfold connCleanup Conn.dropIlist
  dsimp only
  split <;> exact hdrop

theorem BusyTurn.mType (ht : BusyTurn cfg env s s') : s'.c.mType = s.c.mType := by
  cases ht with
  | same | closing | dropped | swallowed | swallowDone => rfl
  | reset nreqs hnew => exact dropItem_mType ..
  | closed hc =>
    dsimp only
    split
    · exact connCleanup_mType ..
    · exact connCleanup_mType ..
  | received bs rest input =>
    dsimp only
    unfold receive
    dsimp only
    split <;> rfl
  | completed c' g' hn hz hc =>
    unfold completeNreadConn at hc
    split at hc
    · exact completeNreadBinary_mType hc
    · exact completeNreadAscii_mType hc
  | sent =>
    unfold Session.transmitComplete
    split <;> rfl

theorem readTurn_mType {inp : Input} (ht : s.readTurn inp = some s') : s'.c.mType = s.c.mType := by
  cases inp with
  | data bs =>
    simp only [Session.readTurn, tryReadUdp] at ht
    split_ifs at ht <;> cases ht <;> first | rfl | exact outString_mType ..
  | again | error =>
    cases ht
    rfl
  | noMemory =>
    simp only [Session.readTurn] at ht
    split at ht <;> cases ht
    · rfl
    · exact outString_mType ..
  | event | go | wrote | eventFailed =>
    cases ht
    rfl

/-- Only a TYPE line changes the role. -/
theorem turn_mType {inp : Input} (hn : inp = .go → ¬TypeNext cfg s) (ht : s.turn cfg env inp = some s') :
    s'.c.mType = s.c.mType := by
  by_cases hs : AtCommand s
  swap
  · exact (turn_busy hs ht).mType
  by_cases hst : s.stop = true
  · unfold Session.turn at ht
    rw [if_pos hst] at ht
    cases inp <;> cases ht <;> rfl
  have hrun : s.stop = false := by simpa using hst
  simp only [AtCommand, List.mem_cons, List.not_mem_nil, or_false] at hs
  obtain hs | hs | hs := hs
  · unfold Session.turn at ht
    simp only [hrun, hs, Bool.false_eq_true, if_false] at ht
    cases inp <;> cases ht <;> rfl
  · unfold Session.turn at ht
    simp only [hrun, hs, Bool.false_eq_true, if_false] at ht
    exact readTurn_mType ht
  · rw [turn_parseCmd hrun hs] at ht
    by_cases hgo : inp = .go
    · subst hgo
      obtain ⟨p, hp, rfl⟩ := Option.map_eq_some_iff.mp ht
      have hkeep := tryReadCommand_mType hrun hs (hn rfl) hp
      dsimp only
      split <;> exact hkeep
    · cases inp <;> first | exact absurd rfl hgo | (cases ht; rfl)

/-- The step runs no TYPE line. -/
def NoType (cfg : Config) (s : Session) (e : ServerEvent) : Prop := ∀ env, e = .turn env .go → ¬TypeNext cfg s

theorem run_mType {es : List ServerEvent} (hr : Run (Guarded (NoType cfg) (Happens cfg)) s es s') :
    s'.c.mType = s.c.mType := by
  refine hr.invariant_of_guard (I := fun x => x.c.mType = s.c.mType) (fun x e x' hx hn ht => ?_) rfl
  cases e with
  | others g =>
    cases ht
    exact hx
  | turn env inp => exact (turn_mType (fun hgo => hn env (by rw [hgo])) ht).trans hx

/-! ## process_command_TYPE -/

/-- What `process_command_TYPE` leaves: the role of the connection, the node with the
connections it makes, and the number returned. -/
structure TypeResult where
  mType : ProxyType
  node : RamcubeNode
  hellos : List Hello
  rtn : Int

/-- The role of a connection that was accepted from such a peer. -/
def ProxyRole.serverType : ProxyRole → ProxyType
  | PING => .PING_SERVER
  | BACKUP => .BACKUP_SERVER
  | COORDINATOR => .COORDINATOR_SERVER

section

variable (gethostbyname : Bytes → InAddr) (beyond : Bytes)

/-- `set_sin_by_name` of a name in the read buffer: without a `#` in it, the port is read
from the text behind the name. -/
def sinOfName (name : Bytes) : SockaddrIn :=
  (setSinByName gethostbyname name).getD
    ⟨if isAlpha (name.headD 0) then gethostbyname name else inetAddr name, UInt16.ofInt (atoi beyond)⟩

/-- `process_command_TYPE`; `none` where the assertion fails that there is room for a
proxy. -/
def Conn.processCommandTYPE (c : Conn) (n : RamcubeNode) (subcomm peerName : Bytes) : Option TypeResult :=
  if subcomm = ascii "DATA" then some ⟨.DATA_SERVER, n, [], 0⟩
  else if subcomm = ascii "RECOVERY" then
    let peerSin := sinOfName gethostbyname beyond peerName
    some ⟨.RECOVERY_SERVER, { n with vpRecoveryIn := (pushBack n.vpRecoveryIn peerSin).getD n.vpRecoveryIn }, [], 0⟩
  else match ProxyRole.all.find? (·.typeStr = subcomm) with
    | none => some ⟨c.mType, n, [], -1⟩
    | some role =>
      -- the connection has the role before the peer is looked for
      let peerSin := sinOfName gethostbyname beyond peerName
      if n.isMyPeer role peerSin then
        (n.acceptPeer role peerSin).map fun (n, hellos) => ⟨role.serverType, n, hellos, 0⟩
      else some ⟨role.serverType, n, [], -1⟩

end

variable {gethostbyname : Bytes → InAddr} {beyond subcomm peerName : Bytes} {n : RamcubeNode} {r : TypeResult}

theorem typeStr_find (role : ProxyRole) : ProxyRole.all.find? (·.typeStr = role.typeStr) = some role := by
  cases role <;> decide +kernel

theorem typeStr_ne (role : ProxyRole) : role.typeStr ≠ ascii "DATA" ∧ role.typeStr ≠ ascii "RECOVERY" := by
  cases role <;> decide +kernel

theorem typeStr_of_find {role : ProxyRole} (h : ProxyRole.all.find? (·.typeStr = subcomm) = some role) :
    subcomm = role.typeStr := by
  have := List.find?_some h
  exact (of_decide_eq_true this).symm

theorem serverType_ne (role : ProxyRole) : role.serverType ≠ .DATA_SERVER := by
  cases role <;> nofun

/-- What a TYPE line comes to. -/
inductive TypeOutcome (sin : SockaddrIn) (c : Conn) (n : RamcubeNode) : Bytes → TypeResult → Prop where
  | data : TypeOutcome sin c n (ascii "DATA") ⟨.DATA_SERVER, n, [], 0⟩
  | recovery (n' : RamcubeNode) : TypeOutcome sin c n (ascii "RECOVERY") ⟨.RECOVERY_SERVER, n', [], 0⟩
  | peer (role : ProxyRole) (n' : RamcubeNode) (hellos : List Hello) (hp : sin ∈ n.vpSins role) :
      TypeOutcome sin c n role.typeStr ⟨role.serverType, n', hellos, 0⟩
  | stranger (role : ProxyRole) (hp : sin ∉ n.vpSins role) :
      TypeOutcome sin c n role.typeStr ⟨role.serverType, n, [], -1⟩
  | unknown (subcomm : Bytes) (hd : subcomm ≠ ascii "DATA") (hr : subcomm ≠ ascii "RECOVERY")
      (hn : ∀ role : ProxyRole, subcomm ≠ role.typeStr) : TypeOutcome sin c n subcomm ⟨c.mType, n, [], -1⟩

theorem processCommandTYPE_cases (h : c.processCommandTYPE gethostbyname beyond n subcomm peerName = some r) :
    TypeOutcome (sinOfName gethostbyname beyond peerName) c n subcomm r := by
  unfold Conn.processCommandTYPE at h
  dsimp only at h
  by_cases hdata : subcomm = ascii "DATA"
  · rw [if_pos hdata] at h
    cases h
    exact hdata ▸ .data
  rw [if_neg hdata] at h
  by_cases hrec : subcomm = ascii "RECOVERY"
  · rw [if_pos hrec] at h
    cases h
    exact hrec ▸ .recovery _
  rw [if_neg hrec] at h
  cases hf : ProxyRole.all.find? (·.typeStr = subcomm) with
  | none =>
    rw [hf] at h
    cases h
    refine .unknown subcomm hdata hrec fun role heq => ?_
    exact List.find?_eq_none.mp hf role (by cases role <;> simp [ProxyRole.all]) (by simpa using heq.symm)
  | some role =>
    rw [hf] at h
    obtain rfl := typeStr_of_find hf
    dsimp only at h
    by_cases hpeer : n.isMyPeer role (sinOfName gethostbyname beyond peerName) = true
    · rw [if_pos hpeer] at h
      obtain ⟨⟨n', hellos⟩, _, rfl⟩ := Option.map_eq_some_iff.mp h
      exact .peer role n' hellos (RamcubeNode.isMyPeer_iff.mp hpeer)
    · rw [if_neg hpeer] at h
      cases h
      exact .stranger role fun hp => hpeer (RamcubeNode.isMyPeer_iff.mpr hp)

theorem typeOf_typeStr (c : Conn) (role : ProxyRole) : typeOf c role.typeStr = role.serverType := by
  have hnames : ascii "BACKUP" ≠ ascii "DATA" ∧ ascii "BACKUP" ≠ ascii "RECOVERY" ∧ ascii "PING" ≠ ascii "DATA" ∧
      ascii "PING" ≠ ascii "RECOVERY" ∧ ascii "PING" ≠ ascii "BACKUP" ∧ ascii "COORDINATOR" ≠ ascii "DATA" ∧
      ascii "COORDINATOR" ≠ ascii "RECOVERY" ∧ ascii "COORDINATOR" ≠ ascii "BACKUP" ∧
      ascii "COORDINATOR" ≠ ascii "PING" := by decide +kernel
  cases role <;> simp [typeOf, ProxyRole.typeStr, ProxyRole.serverType, hnames]

/-- The role is the one that `ramcube_process_commands` gives the connection. -/
theorem TypeOutcome.mType {sin : SockaddrIn} (h : TypeOutcome sin c n subcomm r) : r.mType = typeOf c subcomm := by
  cases h with
  | data => rfl
  | recovery n' => exact (if_neg (by decide +kernel)).symm
  | peer role => exact (typeOf_typeStr c role).symm
  | stranger role => exact (typeOf_typeStr c role).symm
  | unknown subcomm hd hr hn =>
    unfold typeOf
    rw [if_neg hd, if_neg hr]
    exact ((if_neg (hn .BACKUP)).trans ((if_neg (hn .PING)).trans (if_neg (hn .COORDINATOR)))).symm

/-! ## Peers that are refused -/

/-- The commands that test the role of the connection. -/
def roleCommands : List Bytes := [ascii "BACKUP_REQUEST", ascii "RECOVERY_REQUEST"]

/-- The commands that peers send. -/
def peerCommands : List Bytes := roleCommands ++ [ascii "HEARTBEAT", ascii "CRASH", ascii "CRASHED"]

/-- No such command is accepted on the connection, whatever the rest of its line is. -/
def Refuses (cmds : List Bytes) (s : Session) : Prop :=
  ∀ env t leftCom, t.value 0 ∈ cmds → ramcubeProcessCommands env s.c s.g t leftCom = some (s.c, s.g, -1)

/-- What is to follow when `process_command_TYPE` returns -1: the connection keeps its
role and the node its proxies, and until the next TYPE line no command of a peer is
accepted on the connection. -/
structure Unchanged (cfg : Config) (cmds : List Bytes) (c : Conn) (n : RamcubeNode) (r : TypeResult) : Prop where
  mType : r.mType = c.mType
  node : r.node = n
  later : ∀ es s s', s.c.mType = r.mType → Run (Guarded (NoType cfg) (Happens cfg)) s es s' → Refuses cmds s'

/-- The peer is one that the configuration names for the role. -/
def ListedPeer (n : RamcubeNode) (sin : SockaddrIn) (subcomm : Bytes) : Prop :=
  ∀ role : ProxyRole, subcomm = role.typeStr → sin ∈ n.vpSins role

/-- The subcommand is a known one. -/
def KnownType (subcomm : Bytes) : Prop :=
  subcomm = ascii "DATA" ∨ subcomm = ascii "RECOVERY" ∨ ∃ role : ProxyRole, subcomm = role.typeStr

/-- A client's connection accepts none of the commands that test the role. -/
theorem refuses_roleCommands (h : s.c.mType = .DATA_SERVER) : Refuses roleCommands s := by
  intro env t leftCom ht
  have hnames : ∀ w ∈ roleCommands, w ≠ ascii "TYPE" ∧ w ∉ [ascii "HEARTBEAT", ascii "CRASH", ascii "CRASHED"] ∧
      w ≠ ascii "DATA_REQUEST" := by decide +kernel
  obtain ⟨htype, hplain, hdata⟩ := hnames _ ht
  have hrole : s.c.mType ≠ .BACKUP_SERVER ∧ s.c.mType ≠ .RECOVERY_SERVER := by simp [h]
  unfold ramcubeProcessCommands
  dsimp only
  rw [if_neg fun h => htype h.2.1, if_neg fun h => hrole.1 h.2.2, if_neg fun h => hrole.2 h.2.2,
    if_neg fun h => hplain h.2, if_neg fun h => hdata h.2]

/-- A HEARTBEAT is accepted in every role. -/
theorem not_refuses_heartbeat {cmds : List Bytes} (hc : ascii "HEARTBEAT" ∈ cmds) (s : Session) : ¬Refuses cmds s := by
  intro h
  have hrefused := h default ⟨[ascii "HEARTBEAT"], none⟩ [] hc
  have haccepted : ramcubeProcessCommands default s.c s.g ⟨[ascii "HEARTBEAT"], none⟩ [] = some (s.c, s.g, 1) := by
    have hname : ascii "HEARTBEAT" ∈ [ascii "HEARTBEAT", ascii "CRASH", ascii "CRASHED"] := List.mem_cons_self
    unfold ramcubeProcessCommands
    dsimp only
    rw [if_neg (fun h => absurd h.1 (by decide)), if_neg (fun h => absurd h.1 (by decide)),
      if_neg (fun h => absurd h.1 (by decide)), if_pos ⟨rfl, hname⟩]
  rw [haccepted] at hrefused
  cases hrefused

/-- A connection of a backup accepts requests. -/
theorem not_refuses_backupRequest (h : s.c.mType = .BACKUP_SERVER) : ¬Refuses roleCommands s := by
  intro hrefuses
  have hrefused := hrefuses default ⟨[ascii "BACKUP_REQUEST", decimal 1], none⟩ [] List.mem_cons_self
  unfold ramcubeProcessCommands at hrefused
  dsimp only at hrefused
  rw [if_neg (fun h => absurd h.1 (by decide)), if_pos ⟨rfl, rfl, h⟩] at hrefused
  obtain ⟨p, _, hp⟩ := Option.map_eq_some_iff.mp hrefused
  cases congrArg (fun q => q.2.2) hp

/-- What the connection refuses as it is left. -/
theorem Unchanged.refuses {cmds : List Bytes} (h : Unchanged cfg cmds c n r) :
    Refuses cmds (connSession { c with mType := r.mType } (globalsInit 16)) :=
  h.later [] _ _ rfl (.nil _)

/-- Where `process_command_TYPE` returns -1, the connection and the node are left as they
were, and no command that tests the role is accepted later, if and only if the peer is
listed or the subcommand is no role. The commands of peers that test no role are accepted
in any case; with them, that holds only where -1 is not returned. -/
theorem type_refused_iff (hrole : c.mType = .DATA_SERVER)
    (hr : c.processCommandTYPE gethostbyname beyond n subcomm peerName = some r) :
    ((r.rtn = -1 → Unchanged cfg roleCommands c n r) ↔ ListedPeer n (sinOfName gethostbyname beyond peerName) subcomm) ∧
      ((r.rtn = -1 → Unchanged cfg peerCommands c n r) ↔
        KnownType subcomm ∧ ListedPeer n (sinOfName gethostbyname beyond peerName) subcomm) := by
  have houtcome := processCommandTYPE_cases hr
  generalize sinOfName gethostbyname beyond peerName = sin at houtcome ⊢
  have hheart : ¬Unchanged cfg peerCommands c n r := fun h => not_refuses_heartbeat (by simp [peerCommands]) _ h.refuses
  have hfind : ∀ role role' : ProxyRole, role.typeStr = role'.typeStr → role = role' := by
    intro role role' h
    have := congrArg (fun w => ProxyRole.all.find? (·.typeStr = w)) h
    simpa [typeStr_find] using this
  cases houtcome with
  | data =>
    have hlisted : ListedPeer n sin (ascii "DATA") := fun role h => absurd h.symm (typeStr_ne role).1
    exact ⟨⟨fun _ => hlisted, nofun⟩, ⟨fun _ => ⟨.inl rfl, hlisted⟩, nofun⟩⟩
  | recovery n' =>
    have hlisted : ListedPeer n sin (ascii "RECOVERY") := fun role h => absurd h.symm (typeStr_ne role).2
    exact ⟨⟨fun _ => hlisted, nofun⟩, ⟨fun _ => ⟨.inr (.inl rfl), hlisted⟩, nofun⟩⟩
  | peer role n' hellos hp =>
    have hlisted : ListedPeer n sin role.typeStr := fun role' h => hfind _ _ h ▸ hp
    exact ⟨⟨fun _ => hlisted, nofun⟩, ⟨fun _ => ⟨.inr (.inr ⟨role, rfl⟩), hlisted⟩, nofun⟩⟩
  | stranger role hp =>
    have hnot : ¬ListedPeer n sin role.typeStr := fun h => hp (h role rfl)
    refine ⟨⟨fun h => ?_, fun h => absurd h hnot⟩, ⟨fun h => absurd (h rfl) hheart, fun h => absurd h.2 hnot⟩⟩
    exact absurd ((h rfl).mType.trans hrole) (serverType_ne role)
  | unknown subcomm hd hrec hn =>
    have hlisted : ListedPeer n sin subcomm := fun role h => absurd h (hn role)
    refine ⟨⟨fun _ => hlisted, fun _ _ => ⟨rfl, rfl, fun es s s' hs hrun => ?_⟩⟩,
      ⟨fun h => absurd (h rfl) hheart, fun h => ?_⟩⟩
    · exact refuses_roleCommands (((run_mType hrun).trans hs).trans hrole)
    · obtain h | h | ⟨role, h⟩ := h.1
      · exact absurd h hd
      · exact absurd h hrec
      · exact absurd h (hn role)

/-! ### A backup that is not listed -/

theorem processCommandTYPE_stranger {role : ProxyRole} {a : SockaddrIn} (h : a ∉ n.vpSins role) :
    c.processCommandTYPE gethostbyname beyond n role.typeStr a.text = some ⟨role.serverType, n, [], -1⟩ := by
  have hpeer : ¬n.isMyPeer role a = true := fun hp => h (RamcubeNode.isMyPeer_iff.mp hp)
  unfold Conn.processCommandTYPE
  rw [if_neg (typeStr_ne role).1, if_neg (typeStr_ne role).2, typeStr_find]
  simp only [sinOfName, setSinByName_text, Option.getD_some, if_neg hpeer]

/-- A node without peers, and one that connects to it. -/
def lonelyNode : RamcubeNode := emptyNode ⟨⟨10, 0, 0, 1⟩, 11211⟩

def strangerSin : SockaddrIn := ⟨⟨10, 0, 0, 9⟩, 11211⟩

/-- A connection just accepted. -/
def acceptedConn : Conn := connNew smallServer 4096 .newCmd .tcp

theorem type_refused_iff_stranger :
    (((-1 : Int) = -1 → Unchanged smallBackup roleCommands acceptedConn lonelyNode ⟨.PING_SERVER, lonelyNode, [], -1⟩) ↔
        ListedPeer lonelyNode (sinOfName (fun _ => ⟨0, 0, 0, 0⟩) [] strangerSin.text) ProxyRole.PING.typeStr) ∧
      (((-1 : Int) = -1 → Unchanged smallBackup peerCommands acceptedConn lonelyNode ⟨.PING_SERVER, lonelyNode, [], -1⟩) ↔
        KnownType ProxyRole.PING.typeStr ∧
          ListedPeer lonelyNode (sinOfName (fun _ => ⟨0, 0, 0, 0⟩) [] strangerSin.text) ProxyRole.PING.typeStr) :=
  type_refused_iff (n := lonelyNode) (c := acceptedConn) rfl
    (processCommandTYPE_stranger (show strangerSin ∉ lonelyNode.vpSins .PING from List.not_mem_nil))

/-- `TYPE BACKUP` from a peer that is not listed returns -1, and the connection then accepts
the requests of a primary. -/
theorem stranger_becomes_backup : ∃ c n subcomm peerName r, c.mType = .DATA_SERVER ∧
    c.processCommandTYPE (fun _ => ⟨0, 0, 0, 0⟩) [] n subcomm peerName = some r ∧ r.rtn = -1 ∧
    r.mType = .BACKUP_SERVER ∧ ¬Unchanged smallBackup roleCommands c n r ∧
    ∀ s : Session, s.c.mType = r.mType → ¬Refuses roleCommands s :=
  ⟨acceptedConn, lonelyNode, ProxyRole.BACKUP.typeStr, strangerSin.text, ⟨.BACKUP_SERVER, lonelyNode, [], -1⟩, rfl,
    processCommandTYPE_stranger (show strangerSin ∉ lonelyNode.vpSins .BACKUP from List.not_mem_nil), rfl, rfl, (fun h => nomatch h.mType),
    fun _ => not_refuses_backupRequest⟩

end RamCube
