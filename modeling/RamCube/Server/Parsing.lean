import RamCube.Server.BackupReplies

/-! # What follows a command (memcached.c, ramcube.c)

`drive_machine` expects that every command leaves `conn_parse_cmd`: for an answer, for a
data block, or for the next command. Some commands between nodes stay there and may
leave the read buffer empty, where `try_read_command` asserts that it is not
(`parses_well_iff`). -/
namespace RamCube

variable {cfg : Config} {env : Env} {c c' : Conn} {g g' : Globals} {t : Tokens} {s s' : Session}

/-! ## States after a command -/

/-- An answer to write, a data block to read, or the next command. -/
def MovedOn (state : ConnState) : Prop := state ∈ [.write, .mwrite, .nread, .newCmd, .waiting, .closing]

/-- An answer leads to the next command, or to the end of this one. -/
def AnswersOn (c : Conn) : Prop :=
  c.state = .write ∨ c.state = .mwrite → c.next ∈ [.newCmd, .swallow, .closing]

structure Proceeds (c : Conn) : Prop where
  state : MovedOn c.state
  next : AnswersOn c

theorem AnswersOn.of_state (h : c.state ≠ .write) (h' : c.state ≠ .mwrite) : AnswersOn c :=
  fun hs => absurd hs (not_or.mpr ⟨h, h'⟩)

theorem Conn.next_mem {states : List ConnState} (h : c.writeAndGo ∈ states) (hn : .newCmd ∈ states) :
    c.next ∈ states := by
  unfold Conn.next
  split
  · exact hn
  · exact h

/-- An answer that says itself what follows it. -/
theorem Proceeds.of_write (hs : c.state = .write ∨ c.state = .mwrite) (hg : c.writeAndGo ∈ [.newCmd, .swallow, .closing]) :
    Proceeds c where
  state := by obtain hs | hs := hs <;> simp [MovedOn, hs]
  next _ := Conn.next_mem hg (by simp)

theorem Proceeds.of_idle (hs : c.state = .nread ∨ c.state = .newCmd ∨ c.state = .waiting ∨ c.state = .closing) :
    Proceeds c := by
  obtain hs | hs | hs | hs := hs <;>
    exact ⟨by simp [MovedOn, hs], .of_state (by simp [hs]) (by simp [hs])⟩

theorem Settled.proceeds (h : Settled c) : Proceeds c := by
  obtain h | ⟨hs, hg⟩ := h
  · exact .of_idle (.inr (.inl h))
  · exact .of_write hs (by simp [hg])

theorem outString_proceeds (c : Conn) (str : Bytes) : Proceeds (outString c str) := (settled_outString str).proceeds

theorem writeAndFree_proceeds (c : Conn) (buf : Bytes) : Proceeds (writeAndFree c buf) := .of_write (.inl rfl) (by simp [writeAndFree])

theorem writeBinError_proceeds (c : Conn) (err : BinStatus) (swallow : Int) : Proceeds (writeBinError c err swallow) := by
  refine .of_write (.inr (writeBinError_state c err swallow)) ?_
  by_cases h : 0 < swallow
  · simp [(writeBinError_swallow c err h).1]
  · simp [(writeBinError_zero c err (Int.not_lt.mp h)).1]

/-- The state does not depend on the rest of a connection. -/
theorem Proceeds.congr (h : Proceeds c) (hs : c'.state = c.state) (hg : c'.writeAndGo = c.writeAndGo)
    (hp : c'.protocol = c.protocol) : Proceeds c' := by
  obtain ⟨hstate, hnext⟩ := h
  have hn : c'.next = c.next := by simp only [Conn.next, hs, hg, hp]
  exact ⟨hs ▸ hstate, by rwa [AnswersOn, hs, hn]⟩

/-! ## Text commands -/

theorem processGetKeys_proceeds {returnCas : Bool} {keys : List Bytes} {i : Nat} {out : Bytes}
    (hp : c.protocol ≠ .binary) : Proceeds (processGetKeys cfg returnCas keys i out c g).1 := by
  induction keys generalizing i out c g with
  | nil =>
    refine ⟨by simp [processGetKeys, MovedOn], fun _ => ?_⟩
    simp [processGetKeys, Conn.next, hp]
  | cons key keys ih =>
    unfold processGetKeys
    split
    · exact outString_proceeds ..
    · split
      · exact ih hp
      · exact ih hp

theorem startUpdate_proceeds {comm : NRead} {key : Bytes} {flags exptime vlen : Int} {reqCas : UInt64} :
    Proceeds (startUpdate cfg env c g comm key flags exptime vlen reqCas).1 := by
  unfold startUpdate
  split
  · obtain h | h := outString_next c (if itemSizeOk cfg.toSettings key.length flags vlen
      then ascii "SERVER_ERROR out of memory storing object" else ascii "SERVER_ERROR object too large for cache")
    · exact .of_idle (.inr (.inl h))
    · exact .of_write (.inl h.1) (by simp)
  · exact .of_idle (.inl rfl)

theorem processUpdateCommand_proceeds {comm : NRead} {handleCas : Bool} :
    Proceeds (processUpdateCommand cfg env c g t comm handleCas).1 := by
  unfold processUpdateCommand
  dsimp only
  split
  · exact outString_proceeds ..
  · split
    · split
      · split
        · exact outString_proceeds ..
        · exact startUpdate_proceeds
      · exact outString_proceeds ..
    · exact outString_proceeds ..

theorem processTouchCommand_proceeds : Proceeds (processTouchCommand cfg c g t).1 := by
  unfold processTouchCommand
  dsimp only
  split
  · exact outString_proceeds ..
  · split
    · split <;> exact outString_proceeds ..
    · exact outString_proceeds ..

theorem processDeleteCommand_proceeds : Proceeds (processDeleteCommand cfg c g t).1 := by
  unfold processDeleteCommand
  dsimp only
  split_ifs <;> first | exact outString_proceeds .. | (split <;> exact outString_proceeds ..)

theorem processStat_proceeds : Proceeds (processStat env c g t).1 := by
  unfold processStat processStatsDetail processStatsCachedump
  dsimp only
  split_ifs <;> first | exact writeAndFree_proceeds .. | exact outString_proceeds .. | skip
  split
  · split <;> first | exact writeAndFree_proceeds .. | exact outString_proceeds ..
  · exact outString_proceeds ..

theorem processFlushAll_proceeds (h : processFlushAll cfg c g t = some (c', g')) : Proceeds c' := by
  unfold processFlushAll at h
  dsimp only at h
  generalize setNoreplyMaybe c t = c₁ at h
  by_cases h1 : t.ntokens = if c₁.noreply then 3 else 2
  · rw [if_pos h1] at h
    cases h
    exact outString_proceeds ..
  rw [if_neg h1] at h
  by_cases h2 : t.ntokens = 2
  · rw [if_pos h2] at h
    cases h
  rw [if_neg h2] at h
  split at h <;> cases h <;> exact outString_proceeds ..

theorem processSlabsCommand_proceeds : Proceeds (processSlabsCommand cfg env c g t).1 := by
  unfold processSlabsCommand processSlabsReassign processSlabsAutomoveCommand
  dsimp only
  split_ifs <;> first | exact outString_proceeds .. | skip
  split <;> exact outString_proceeds ..

/-- Without a `cas` unique none can differ. -/
theorem doAddDelta_no_cas (cfg : Settings) (alloc : AllocEnv) (st : Store) (key : Bytes) (incr : Bool) (delta : UInt64)
    (hv : UInt32) : (doAddDelta cfg alloc st key incr delta 0 hv).2.result ≠ .DELTA_ITEM_CAS_MISMATCH := by
  unfold doAddDelta doAddDeltaReading
  dsimp only
  split
  · nofun
  · rw [if_neg fun h => h.1 rfl]
    split
    · nofun
    · split
      · split <;> nofun
      · nofun

theorem processArithmeticCommand_proceeds {incr : Bool} : Proceeds (processArithmeticCommand cfg env c g t incr).1 := by
  unfold processArithmeticCommand
  dsimp only
  split
  · exact outString_proceeds ..
  · split
    · rename_i delta _
      have hcas := doAddDelta_no_cas cfg.toSettings (env.alloc g.store) g.store (t.value 1) incr delta
        (cfg.hash (t.value 1))
      split
      · exact outString_proceeds ..
      · exact outString_proceeds ..
      · exact outString_proceeds ..
      · exact outString_proceeds ..
      · exact absurd ‹_› hcas
    · exact outString_proceeds ..

/-! ## Commands that stay -/

/-- The commands between nodes that give no answer and no new state. -/
def StaysPut (cfg : Config) (c : Conn) (t : Tokens) : Prop :=
  cfg.ramcubeMode = true ∧
    (t.ntokens = 2 ∧ t.value 0 ∈ [ascii "HEARTBEAT", ascii "CRASH", ascii "CRASHED"] ∨
      t.ntokens = 3 ∧ t.value 0 = ascii "RECOVERY_REQUEST" ∧ c.mType = .RECOVERY_SERVER)

theorem processOther_proceeds {leftCom : Bytes} {rtn : Int} (hl : ¬StaysPut cfg c t)
    (h : processOther cfg env c g t leftCom = some (c', g', rtn)) : Proceeds c' := by
  unfold processOther at h
  by_cases hr : cfg.ramcubeMode = true
  swap
  · rw [if_neg hr] at h
    cases h
    exact outString_proceeds ..
  rw [if_pos hr] at h
  obtain ⟨⟨c1, g1, n⟩, hproc, h⟩ := Option.map_eq_some_iff.mp h
  unfold ramcubeProcessCommands at hproc
  dsimp only at hproc h
  by_cases h1 : t.ntokens = 4 ∧ t.value 0 = ascii "TYPE" ∧ c.mType = .DATA_SERVER
  · rw [if_pos h1] at hproc
    cases hproc
    cases h
    exact .of_idle (.inr (.inl rfl))
  rw [if_neg h1] at hproc
  by_cases h2 : t.ntokens = 3 ∧ t.value 0 = ascii "BACKUP_REQUEST" ∧ c.mType = .BACKUP_SERVER
  · rw [if_pos h2] at hproc
    obtain ⟨⟨b, text⟩, _, hproc⟩ := Option.map_eq_some_iff.mp hproc
    cases hproc
    cases h
    exact outString_proceeds ..
  rw [if_neg h2] at hproc
  by_cases h3 : t.ntokens = 3 ∧ t.value 0 = ascii "RECOVERY_REQUEST" ∧ c.mType = .RECOVERY_SERVER
  · exact absurd ⟨hr, .inr h3⟩ hl
  rw [if_neg h3] at hproc
  by_cases h4 : t.ntokens = 2 ∧ t.value 0 ∈ [ascii "HEARTBEAT", ascii "CRASH", ascii "CRASHED"]
  · exact absurd ⟨hr, .inl h4⟩ hl
  rw [if_neg h4] at hproc
  split at hproc
  · cases hproc
    cases h
    exact outString_proceeds ..
  · cases hproc
    cases h
    exact outString_proceeds ..

theorem processCommand_proceeds {command leftCom : Bytes} {rtn : Int} (hp : c.protocol ≠ .binary)
    (hl : ¬StaysPut cfg c (tokenizeCommand command))
    (h : processCommand cfg env c g command leftCom = some (c', g', rtn)) : Proceeds c' := by
  unfold processCommand at h
  dsimp only at h
  cases hh : handlerOf (tokenizeCommand command) with
  | get returnCas =>
    rw [hh] at h
    cases h
    exact processGetKeys_proceeds hp
  | update comm handleCas =>
    rw [hh] at h
    cases h
    exact processUpdateCommand_proceeds
  | arithmetic incr =>
    rw [hh] at h
    cases h
    exact processArithmeticCommand_proceeds
  | delete =>
    rw [hh] at h
    cases h
    exact processDeleteCommand_proceeds
  | touch =>
    rw [hh] at h
    cases h
    exact processTouchCommand_proceeds
  | stats =>
    rw [hh] at h
    cases h
    exact processStat_proceeds
  | flushAll =>
    rw [hh] at h
    obtain ⟨⟨c1, g1⟩, hf, h⟩ := Option.bind_eq_some_iff.mp h
    cases h
    exact processFlushAll_proceeds hf
  | version =>
    rw [hh] at h
    cases h
    exact outString_proceeds ..
  | quit =>
    rw [hh] at h
    cases h
    exact .of_idle (.inr (.inr (.inr rfl)))
  | slabs =>
    rw [hh] at h
    cases h
    exact processSlabsCommand_proceeds
  | verbosity =>
    rw [hh] at h
    cases h
    exact outString_proceeds ..
  | other =>
    rw [hh] at h
    exact processOther_proceeds hl h

/-- A command that stays leaves the connection as it was. -/
theorem processCommand_stays (env : Env) (g : Globals) {command : Bytes} (leftCom : Bytes)
    (hl : StaysPut cfg c (tokenizeCommand command)) : ∃ rtn, processCommand cfg env c g command leftCom = some (c, g, rtn) := by
  obtain ⟨hr, hl⟩ := hl
  have hwords : ∀ w ∈ [ascii "HEARTBEAT", ascii "CRASH", ascii "CRASHED", ascii "RECOVERY_REQUEST"],
      w ≠ ascii "TYPE" ∧ w ≠ ascii "BACKUP_REQUEST" ∧ (w = ascii "RECOVERY_REQUEST" ∨ w ≠ ascii "RECOVERY_REQUEST") ∧
      w ∉ [ascii "get", ascii "bget", ascii "add", ascii "set", ascii "replace", ascii "prepend", ascii "append",
        ascii "cas", ascii "incr", ascii "gets", ascii "decr", ascii "delete", ascii "touch", ascii "stats",
        ascii "flush_all", ascii "version", ascii "quit", ascii "slabs", ascii "verbosity"] := by
    decide +kernel
  have hw : (tokenizeCommand command).value 0 ∈
      [ascii "HEARTBEAT", ascii "CRASH", ascii "CRASHED", ascii "RECOVERY_REQUEST"] := by
    simp only [List.mem_cons, List.not_mem_nil, or_false] at hl ⊢
    obtain ⟨_, h | h | h⟩ | ⟨_, h, _⟩ := hl <;> simp [h]
  obtain ⟨htype, hback, _, hnames⟩ := hwords _ hw
  rw [processCommand_other (handlerOf_other hnames)]
  unfold processOther ramcubeProcessCommands
  rw [if_pos hr]
  dsimp only
  rw [if_neg fun h => htype h.2.1, if_neg fun h => hback h.2.1]
  obtain ⟨hn, h⟩ | h := hl
  · rw [if_neg (by omega), if_pos ⟨hn, h⟩]
    exact ⟨1, rfl⟩
  · rw [if_pos h]
    exact ⟨2, rfl⟩

/-! ## Requests -/

theorem dispatched_proceeds (h : Dispatched c c') : Proceeds c' := by
  cases h with
  | key next extra => exact .of_idle (.inl rfl)
  | update => exact .of_idle (.inl rfl)
  | append => exact .of_idle (.inl rfl)
  | sasl => exact .of_idle (.inl rfl)
  | answered _ hf => exact hf.settled.proceeds
  | quit _ _ hs =>
    obtain hs | ⟨hs, hg⟩ := hs
    · exact .of_idle (.inr (.inr (.inr hs)))
    · exact .of_write (.inr hs) (by simp [hg])
  | unknown => exact writeBinError_proceeds ..

theorem handleBinaryProtocolError_proceeds (c : Conn) : Proceeds (handleBinaryProtocolError c) :=
  .of_write (.inr (writeBinError_state c .EINVAL 0)) (by simp [handleBinaryProtocolError])

theorem dispatchBinOpcode_proceeds :
    Proceeds ((dispatchBinOpcode cfg c).getD (handleBinaryProtocolError c)) := by
  cases hd : dispatchBinOpcode cfg c with
  | none => exact handleBinaryProtocolError_proceeds c
  | some c' => exact dispatched_proceeds (dispatchBinOpcode_cases hd)

theorem dispatchBinCommand_proceeds : Proceeds (dispatchBinCommand cfg c) := by
  unfold dispatchBinCommand
  split
  · exact .of_write (.inr (writeBinError_state c .AUTH_ERROR 0)) (by simp)
  · split
    · exact handleBinaryProtocolError_proceeds _
    · exact dispatchBinOpcode_proceeds

theorem valueNext_proceeds {m : Int} {next : BinSubstate} {known : Prop} (h : ValueNext cfg c m next known c' g') :
    Proceeds c' := by
  cases h with
  | read cmd it => exact .of_idle (.inl rfl)
  | swallow err => exact .of_write (.inr (writeBinError_state c err m)) (by simp [binErrorSwallow])
  | unknown => exact writeBinError_proceeds ..

/-- What is done with a block leads on as well. -/
theorem completeNreadConn_proceeds (h : completeNreadConn cfg env c g = some (c', g')) : Proceeds c' := by
  unfold completeNreadConn at h
  split at h
  swap
  · exact (completeNreadAscii_finishes h).settled.proceeds
  cases hs : c.substate with
  | noState => simp [completeNreadBinary, hs] at h
  | readingSetHeader =>
    simp only [completeNreadBinary, hs] at h
    split at h
    · exact valueNext_proceeds (processBinAppendPrepend_next h)
    · exact valueNext_proceeds (processBinUpdate_next h)
  | readSetValue =>
    simp only [completeNreadBinary, hs] at h
    exact (completeUpdateBin_finishes h).settled.proceeds
  | readingSaslAuth =>
    simp only [completeNreadBinary, hs] at h
    exact valueNext_proceeds (processBinSaslAuth_next h)
  | readingSaslAuthData =>
    simp only [completeNreadBinary, hs] at h
    exact (processBinCompleteSaslAuth_finishes h).settled.proceeds
  | readingGetKey | readingTouchKey | readingStat | readingDelHeader | readingIncrHeader | readFlushExptime =>
    exact (completeNreadBinary_noValue (by simp [NoValue, hs]) h).settled.proceeds

/-! ## Turns -/

/-- The command line that the next turn would run. -/
def commandLine (s : Session) : Bytes := cText (chopLine (s.c.rbuf.takeWhile (· != LF)))

/-- The turn runs a command that stays. -/
structure StaysNext (cfg : Config) (s : Session) : Prop where
  running : s.stop = false
  state : s.c.state = .parseCmd
  text : (negotiate s.c).protocol ≠ .binary
  ends : LF ∈ s.c.rbuf
  stays : StaysPut cfg s.c (tokenizeCommand (commandLine s))

/-- In `conn_parse_cmd` there is something to parse, and answers lead on. -/
structure Parsable (s : Session) : Prop where
  rbuf : s.c.state = .parseCmd → s.c.rbuf ≠ []
  next : AnswersOn s.c

theorem Proceeds.parsable (h : Proceeds s.c) : Parsable s :=
  ⟨fun hs => by simpa [MovedOn, hs] using h.state, h.next⟩

/-- There is nothing to parse and no answer to be sent. -/
theorem Parsable.of_idle (h : s.c.state ∉ [.parseCmd, .write, .mwrite]) : Parsable s := by
  simp only [List.mem_cons, List.not_mem_nil, or_false, not_or] at h
  exact ⟨fun hs => absurd hs h.1, .of_state h.2.1 h.2.2⟩

theorem negotiate_mType (c : Conn) : (negotiate c).mType = c.mType := by
  unfold negotiate
  split <;> rfl

theorem tryReadAscii_no_line (hd : c.rbuf.dropWhile (· != LF) = []) : tryReadAscii cfg env c g =
    if 1024 < c.rbuf.length ∧ largeMultiget c.rbuf = false then some ⟨{ c with state := .closing }, g, false, []⟩
    else some ⟨c, g, true, []⟩ := by
  unfold tryReadAscii
  rw [hd]

/-- Unless the command is one of those, a turn leads away from `conn_parse_cmd`. -/
theorem parseTurn_proceeds (hst : s.stop = false) (hs : s.c.state = .parseCmd) (hl : ¬StaysNext cfg s)
    (ht : s.turn cfg env .go = some s') : Proceeds s'.c := by
  rw [turn_parseCmd hst hs] at ht
  obtain ⟨p, hp, rfl⟩ := Option.map_eq_some_iff.mp ht
  dsimp only
  cases hm : p.more with
  | true => exact .of_idle (.inr (.inr (.inl rfl)))
  | false =>
    rw [if_neg Bool.false_ne_true]
    unfold tryReadCommand at hp
    dsimp only at hp
    by_cases hb : (negotiate s.c).protocol = .binary
    · rw [if_pos hb] at hp
      cases hp
      unfold tryReadBinary at hm ⊢
      split
      · rename_i hlen
        simp [hlen] at hm
      · dsimp only
        split
        · exact .of_idle (.inr (.inr (.inr rfl)))
        · exact dispatchBinCommand_proceeds.congr rfl rfl rfl
    · rw [if_neg hb] at hp
      have hrbuf : (negotiate s.c).rbuf = s.c.rbuf := (negotiate_same s.c).1
      by_cases hlf : LF ∈ s.c.rbuf
      · have hd := dropWhile_nextLine hlf
        rw [← hrbuf] at hd
        rw [tryReadAscii_line hd] at hp
        obtain ⟨⟨c1, g1, rtn⟩, hproc, rfl⟩ := Option.map_eq_some_iff.mp hp
        refine (processCommand_proceeds (c := { negotiate s.c with out := [] }) hb (fun hstay => hl ?_) hproc).congr
          rfl rfl rfl
        rw [hrbuf] at hstay
        have hm : ({ negotiate s.c with out := [] } : Conn).mType = s.c.mType := negotiate_mType s.c
        exact ⟨hst, hs, hb, hlf, by rwa [StaysPut, hm] at hstay⟩
      · have hd : (negotiate s.c).rbuf.dropWhile (· != LF) = [] := by
          rw [hrbuf, List.dropWhile_eq_nil_iff]
          exact fun b hb => bne_iff_ne.mpr fun h => hlf (h ▸ hb)
        rw [tryReadAscii_no_line hd] at hp
        split at hp
        · cases hp
          exact .of_idle (.inr (.inr (.inr rfl)))
        · cases hp
          cases hm

theorem tryReadAscii_stays (env : Env) (g : Globals) {cont : Bytes} (hd : c.rbuf.dropWhile (· != LF) = LF :: cont)
    (hs : c.state = .parseCmd)
    (hl : StaysPut cfg c (tokenizeCommand (cText (chopLine (c.rbuf.takeWhile (· != LF)))))) :
    ∃ p, tryReadAscii cfg env c g = some p ∧ p.more = false ∧ p.c.state = .parseCmd := by
  obtain ⟨rtn, hproc⟩ := processCommand_stays (c := { c with out := [] }) env g (cText cont) hl
  rw [tryReadAscii_line hd, hproc]
  exact ⟨_, rfl, rfl, hs⟩

/-- One of those leaves the connection where it is. -/
theorem StaysNext.turn (h : StaysNext cfg s) (env : Env) :
    ∃ s', s.turn cfg env .go = some s' ∧ s'.c.state = .parseCmd := by
  obtain ⟨hrbuf, _⟩ := negotiate_same s.c
  have hd := dropWhile_nextLine h.ends
  have hstay := h.stays
  rw [StaysPut, ← negotiate_mType, commandLine, ← hrbuf] at hstay
  rw [← hrbuf] at hd
  have hstate : (negotiate s.c).state = .parseCmd := by
    unfold negotiate
    split <;> exact h.state
  obtain ⟨p, hp, hmore, hps⟩ := tryReadAscii_stays env s.g hd hstate hstay
  rw [turn_parseCmd h.running h.state]
  simp only [Session.parseTurn, tryReadCommand, if_neg h.text, hp]
  exact ⟨_, rfl, by simp [hmore, hps]⟩

theorem resetCmdHandler_parsable (cfg : Settings) (c : Conn) (g : Globals) :
    ((resetCmdHandler cfg c g).1.state = .parseCmd → (resetCmdHandler cfg c g).1.rbuf ≠ []) ∧
      AnswersOn (resetCmdHandler cfg c g).1 := by
  unfold resetCmdHandler Conn.dropItem
  cases c.item <;> cases c.rbuf <;> simp [AnswersOn]

/-- A turn between two commands. -/
theorem BusyTurn.parsable (ht : BusyTurn cfg env s s') (h : Parsable s) (hs : ¬AtCommand s) : Parsable s' := by
  have hparse : s.c.state ≠ .parseCmd := fun hp => hs (by simp [AtCommand, hp])
  cases ht with
  | same out sent stop nreqs erange => exact ⟨fun hp => absurd hp hparse, h.next⟩
  | reset nreqs hnew =>
    obtain ⟨hrbuf, hnext⟩ := resetCmdHandler_parsable cfg.toSettings s.c s.g
    exact ⟨hrbuf, hnext⟩
  | closing stop erange => exact .of_idle (by simp)
  | dropped erange hu => exact .of_idle (by simp)
  | closed hc =>
    by_cases hu : s.c.transport = .udp
    · have hstate := (connCleanup_same cfg.toSettings s.c s.g).2 hu
      simp only [if_pos hu]
      exact .of_idle (by simp [hstate])
    · simp only [if_neg hu]
      exact .of_idle (by simp [connClose])
  | received bs rest input hn hl ht =>
    obtain ⟨_, _, hstate, _⟩ := receive_same (c := s.c) (g := s.g) bs
    rw [hn] at hstate
    exact .of_idle (by simp [hstate])
  | completed c' g' hn hz hc => exact (completeNreadConn_proceeds hc).parsable
  | swallowed bs rest input hw hl ht => exact .of_idle (by simp [hw])
  | swallowDone hw hz => exact .of_idle (by simp [Session.setState])
  | sent hw ho =>
    have hnext := h.next hw
    have hstate := (@transmitComplete_same cfg s hw).1
    rw [← hstate] at hnext
    simp only [List.mem_cons, List.not_mem_nil, or_false] at hnext
    obtain hn | hn | hn := hnext <;> exact .of_idle (by simp [hn])

theorem waitingTurn_parsable {inp : Input} (ht : s.waitingTurn inp = some s')
    (h : Parsable s) : Parsable s' := by
  cases inp with
  | go | eventFailed =>
    cases ht
    exact .of_idle (by simp [Session.setState])
  | event | data _ | wrote _ | again | error | noMemory =>
    cases ht
    exact h

theorem tryReadUdp_parsable (c : Conn) (bs : Bytes) :
    ((tryReadUdp c bs).state = .parseCmd → (tryReadUdp c bs).rbuf ≠ []) ∧ AnswersOn (tryReadUdp c bs) := by
  unfold tryReadUdp
  by_cases hlen : 8 < bs.length
  · rw [if_pos hlen]
    split
    · exact ⟨nofun, .of_state nofun nofun⟩
    · refine ⟨fun _ hnil => ?_, .of_state nofun nofun⟩
      have := List.drop_eq_nil_iff.mp hnil
      omega
  · rw [if_neg hlen]
    exact ⟨nofun, .of_state nofun nofun⟩

theorem readTurn_parsable {inp : Input} (ht : s.readTurn inp = some s') (h : Parsable s) : Parsable s' := by
  cases inp with
  | data bs =>
    simp only [Session.readTurn] at ht
    split_ifs at ht with hu hb
    · cases ht
      obtain ⟨hrbuf, hnext⟩ := tryReadUdp_parsable s.c bs
      exact ⟨hrbuf, hnext⟩
    · cases ht
      exact .of_idle (by simp [Session.setState])
    · cases ht
      exact ⟨fun _ hnil => hb (List.append_eq_nil_iff.mp hnil).2, .of_state (by simp [tryReadNetwork]) (by simp [tryReadNetwork])⟩
  | again =>
    cases ht
    exact .of_idle (by simp [Session.setState])
  | error =>
    simp only [Session.readTurn] at ht
    cases ht
    by_cases hu : s.c.transport = .udp
    · simp only [if_pos hu]
      exact .of_idle (by simp [Session.setState])
    · simp only [if_neg hu]
      exact .of_idle (by simp [Session.setState])
  | noMemory =>
    simp only [Session.readTurn] at ht
    split at ht <;> cases ht
    · exact h
    · refine Proceeds.parsable ?_
      obtain hn | hn := outString_next { s.c with rbuf := [] } (ascii "SERVER_ERROR out of memory reading request")
      · exact .of_idle (.inr (.inl hn))
      · exact .of_write (.inl hn.1) (by simp [readMemoryError])
  | event | go | wrote _ | eventFailed =>
    cases ht
    exact h

/-! ## Runs -/

/-- The step runs no command that stays. -/
def RunsOn (cfg : Config) (s : Session) (e : ServerEvent) : Prop := ∀ env, e = .turn env .go → ¬StaysNext cfg s

/-- If `try_read_command` is called, there is something to read, and the connection then
writes an answer, reads a data block or looks for the next command. -/
def ParsesWell (s : Session) (e : ServerEvent) (s' : Session) : Prop :=
  ∀ env, e = .turn env .go → s.stop = false → s.c.state = .parseCmd → s.c.rbuf ≠ [] ∧ MovedOn s'.c.state

theorem Parsable.happens {e : ServerEvent} (h : Parsable s) (hc : RunsOn cfg s e) (ht : Happens cfg s e s') :
    Parsable s' ∧ ParsesWell s e s' := by
  cases e with
  | others g =>
    cases ht
    exact ⟨⟨h.rbuf, h.next⟩, fun _ he => by cases he⟩
  | turn env inp =>
    by_cases hs : AtCommand s
    swap
    · refine ⟨(turn_busy hs ht).parsable h hs, fun env' _ _ hp => absurd ?_ hs⟩
      simp [AtCommand, hp]
    by_cases hst : s.stop = true
    · have hstop : s' = s ∨ s' = { s with stop := false, nreqs := cfg.reqsPerEvent } := by
        have ht : s.turn cfg env inp = some s' := ht
        unfold Session.turn at ht
        rw [if_pos hst] at ht
        cases inp <;> cases ht <;> simp
      refine ⟨?_, fun _ _ hrun => absurd (hst.symm.trans hrun) (by simp)⟩
      obtain rfl | rfl := hstop
      · exact h
      · exact ⟨h.rbuf, h.next⟩
    have hrun : s.stop = false := by simpa using hst
    have hturn : s.turn cfg env inp = some s' := ht
    simp only [AtCommand, List.mem_cons, List.not_mem_nil, or_false] at hs
    obtain hs | hs | hs := hs
    · unfold Session.turn at hturn
      simp only [hrun, hs, Bool.false_eq_true, if_false] at hturn
      exact ⟨waitingTurn_parsable hturn h, fun _ _ _ hp => absurd (hs.symm.trans hp) (by simp)⟩
    · unfold Session.turn at hturn
      simp only [hrun, hs, Bool.false_eq_true, if_false] at hturn
      exact ⟨readTurn_parsable hturn h, fun _ _ _ hp => absurd (hs.symm.trans hp) (by simp)⟩
    · by_cases hgo : inp = .go
      · subst hgo
        have hp := parseTurn_proceeds hrun hs (hc env rfl) hturn
        exact ⟨hp.parsable, fun _ _ _ _ => ⟨h.rbuf hs, hp.state⟩⟩
      · rw [turn_parseCmd hrun hs] at hturn
        have hsame : s' = s := by
          cases inp <;> first | exact absurd rfl hgo | (cases hturn; rfl)
        subst hsame
        refine ⟨h, fun env' he => absurd ?_ hgo⟩
        cases he
        rfl

/-- A connection as `conn_new` makes it. -/
theorem connNew_parsable {initState : ConnState} (hi : initState = .newCmd ∨ initState = .read) (cfg : Config)
    (addr : Nat) (transport : Transport) (g : Globals) : Parsable (connSession (connNew cfg addr initState transport) g) := by
  obtain rfl | rfl := hi <;> exact .of_idle (by simp [connSession, connNew])

/-- In a run of a new connection every call of `try_read_command` finds something to
parse and leads on, if and only if no command is run that stays. -/
theorem parses_well_iff {initState : ConnState} (hi : initState = .newCmd ∨ initState = .read) (cfg : Config)
    (addr : Nat) (transport : Transport) (g : Globals) (es : List ServerEvent) (s : Session) :
    Run (fun s e s' => Happens cfg s e s' ∧ ParsesWell s e s') (connSession (connNew cfg addr initState transport) g) es s ↔
      Run (Guarded (RunsOn cfg) (Happens cfg)) (connSession (connNew cfg addr initState transport) g) es s := by
  constructor
  · intro hr
    refine hr.mono fun s e s' ⟨ht, hw⟩ => ⟨fun env he hstay => ?_, ht⟩
    subst he
    obtain ⟨s₁, hturn, hstate⟩ := hstay.turn env
    have heq : s₁ = s' := Option.some.inj (hturn.symm.trans ht)
    subst heq
    have hmoved := (hw env rfl hstay.running hstay.state).2
    rw [hstate] at hmoved
    simp [MovedOn] at hmoved
  · have h0 := connNew_parsable hi cfg addr transport g
    generalize connSession (connNew cfg addr initState transport) g = s₀ at h0
    intro hr
    induction hr with
    | nil => exact .nil _
    | cons hs _ ih =>
      obtain ⟨hnext, hwell⟩ := h0.happens hs.1 hs.2
      exact .cons ⟨hs.2, hwell⟩ (ih hnext)

/-! ## A heartbeat -/

/-- A connection to a node that has read a line. -/
def nodeHasRead (bs : Bytes) : Session :=
  { connSession (tryReadNetwork (connNew smallBackup 4096 .read .tcp) bs) (globalsInit 16) with
    stop := false
    nreqs := 20
    input := bs }

def heartbeatLine : Bytes := ascii "HEARTBEAT" ++ [CR, LF]

theorem heartbeat_staysNext : StaysNext smallBackup (nodeHasRead heartbeatLine) where
  running := rfl
  state := rfl
  text := by decide +kernel
  ends := by simp [nodeHasRead, tryReadNetwork, heartbeatLine, connSession]
  stays := by
    unfold StaysPut
    decide +kernel

theorem nodeHasRead_run (bs : Bytes) (hb : bs ≠ []) : Run (Happens smallBackup)
    (connSession (connNew smallBackup 4096 .read .tcp) (globalsInit 16))
    [.turn default .event, .turn default (.data bs)] (nodeHasRead bs) := by
  have hread : { connSession (connNew smallBackup 4096 .read .tcp) (globalsInit 16) with
      stop := false, nreqs := 20 }.turn smallBackup default (.data bs) = some (nodeHasRead bs) := by
    unfold Session.turn
    simp [connSession, connNew, Session.readTurn, nodeHasRead, hb]
  exact .cons rfl (.single hread)

/-- A connection that reads a line and executes it. -/
theorem parses_well_iff_version : ∃ s, Run (Happens smallBackup) (connSession (connNew smallBackup 4096 .read .tcp) (globalsInit 16))
      [.turn default .event, .turn default (.data (ascii "version\r\n")), .turn default .go] s ∧
    s.c.out = ascii "VERSION 1.4.15\r\n" ∧
    (Run (fun s e s' => Happens smallBackup s e s' ∧ ParsesWell s e s')
        (connSession (connNew smallBackup 4096 .read .tcp) (globalsInit 16))
        [.turn default .event, .turn default (.data (ascii "version\r\n")), .turn default .go] s ↔
      Run (Guarded (RunsOn smallBackup) (Happens smallBackup))
        (connSession (connNew smallBackup 4096 .read .tcp) (globalsInit 16))
        [.turn default .event, .turn default (.data (ascii "version\r\n")), .turn default .go] s) := by
  have hout : ((nodeHasRead (ascii "version\r\n")).turn smallBackup default .go).map (fun s => s.c.out) =
      some (ascii "VERSION 1.4.15\r\n") := by decide +kernel
  obtain ⟨s, hturn, hs⟩ := Option.map_eq_some_iff.mp hout
  exact ⟨s, (nodeHasRead_run _ (by decide)).append (.single hturn), hs, parses_well_iff (.inr rfl) smallBackup 4096 .tcp (globalsInit 16) _ s⟩

/-- A HEARTBEAT leaves the connection in `conn_parse_cmd` with an empty buffer. -/
theorem heartbeat_stays : ¬∀ (cfg : Config) (addr : Nat) (transport : Transport) (g : Globals) (es : List ServerEvent)
    (s : Session), cfg.ramcubeMode = true →
    Run (Happens cfg) (connSession (connNew cfg addr .read transport) g) es s →
    Run (fun s e s' => Happens cfg s e s' ∧ ParsesWell s e s') (connSession (connNew cfg addr .read transport) g) es s := by
  intro h
  obtain ⟨s', hturn, hstate⟩ := heartbeat_staysNext.turn default
  have hstep : Happens smallBackup (nodeHasRead heartbeatLine) (.turn default .go) s' := hturn
  have hread := nodeHasRead_run heartbeatLine (by simp [heartbeatLine])
  have hrun := h smallBackup 4096 .tcp (globalsInit 16) _ _ rfl (hread.append (.single hstep))
  obtain ⟨s₁, hr₁, hr₂⟩ := hrun.split
  have hs₁ : s₁ = nodeHasRead heartbeatLine :=
    (hr₁.mono fun _ _ _ hs => hs.1).unique (fun s e t u ht hu => by
      cases e with
      | turn env inp => exact Option.some.inj (ht.symm.trans hu)
      | others g => exact ht.trans hu.symm) hread
  subst hs₁
  cases hr₂ with
  | cons hs hnil =>
    cases hnil
    have hmoved := (hs.2 default rfl rfl rfl).2
    rw [hstate] at hmoved
    simp [MovedOn] at hmoved

end RamCube
