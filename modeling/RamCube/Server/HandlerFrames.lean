import RamCube.Server.References

/-! # What the handlers leave alone

A handler keeps the transport and the protocol of its connection. Where it goes on to read, it
reads to an item. -/
namespace RamCube

variable {cfg : Config} {env : Env} {c c₁ c' : Conn} {g g' : Globals} {t : Tokens}

structure Handled (c c' : Conn) : Prop where
  transport : c'.transport = c.transport
  protocol : c'.protocol = c.protocol
  value : c'.state = .nread → ∃ it off, c'.ritem = .item it off

theorem Handled.of_core (hc : c'.core = c.core) (hs : c'.state ≠ .nread) : Handled c c' :=
  ⟨core_field Conn.transport (fun _ => rfl) hc, core_field Conn.protocol (fun _ => rfl) hc, fun h => absurd h hs⟩

theorem Handled.after (h : Handled c₁ c') (ht : c₁.transport = c.transport) (hp : c₁.protocol = c.protocol) : Handled c c' :=
  ⟨h.transport.trans ht, h.protocol.trans hp, h.value⟩

theorem Finishes.handled (h : Finishes c c') : Handled c c' :=
  ⟨h.transport, h.protocol, fun hs => absurd hs h.settled.not_nread⟩

theorem handled_outString (c : Conn) (str : Bytes) : Handled c (outString c str) :=
  .of_core (core_outString ..) (settled_outString str).not_nread

theorem handled_writeAndFree (c : Conn) (buf : Bytes) : Handled c (writeAndFree c buf) := .of_core rfl (by simp [writeAndFree])

theorem setNoreplyMaybe_frame (c : Conn) (t : Tokens) :
    (setNoreplyMaybe c t).transport = c.transport ∧ (setNoreplyMaybe c t).protocol = c.protocol := by
  unfold setNoreplyMaybe
  split <;> exact ⟨rfl, rfl⟩

/-- A command that does nothing. -/
theorem Handled.unchanged (hs : c.state ≠ .nread) : Handled c c := ⟨rfl, rfl, fun h => absurd h hs⟩

/-- The handlers that look for a `noreply` first. -/
theorem Handled.noreply (h : Handled (setNoreplyMaybe c t) c') : Handled c c' :=
  h.after (setNoreplyMaybe_frame c t).1 (setNoreplyMaybe_frame c t).2

/-! ## Text commands -/

theorem processGetKeys_handled {returnCas : Bool} {keys : List Bytes} {i : Nat} {out : Bytes} :
    Handled c (processGetKeys cfg returnCas keys i out c g).1 := by
  induction keys generalizing i out c g with
  | nil => exact ⟨rfl, rfl, fun h => by cases h⟩
  | cons key keys ih =>
    unfold processGetKeys
    split
    · exact handled_outString ..
    · split
      · exact ih
      · exact ih.after rfl rfl

theorem startUpdate_handled {comm : NRead} {key : Bytes} {flags exptime vlen : Int} {reqCas : UInt64} :
    Handled c (startUpdate cfg env c g comm key flags exptime vlen reqCas).1 := by
  unfold startUpdate
  split
  · have hout := handled_outString c (if itemSizeOk cfg.toSettings key.length flags vlen
      then ascii "SERVER_ERROR out of memory storing object" else ascii "SERVER_ERROR object too large for cache")
    exact ⟨hout.transport, hout.protocol, fun h => absurd h (settled_outString _).not_nread⟩
  · exact ⟨rfl, rfl, fun _ => ⟨_, _, rfl⟩⟩

theorem processUpdateCommand_handled {comm : NRead} {handleCas : Bool} :
    Handled c (processUpdateCommand cfg env c g t comm handleCas).1 := by
  apply Handled.noreply (t := t)
  unfold processUpdateCommand
  dsimp only
  split
  · exact handled_outString ..
  · split
    · split
      · split
        · exact handled_outString ..
        · exact startUpdate_handled
      · exact handled_outString ..
    · exact handled_outString ..

theorem processTouchCommand_handled : Handled c (processTouchCommand cfg c g t).1 := by
  apply Handled.noreply (t := t)
  unfold processTouchCommand
  dsimp only
  split
  · exact handled_outString ..
  · split
    · split <;> exact handled_outString ..
    · exact handled_outString ..

theorem processArithmeticCommand_handled {incr : Bool} (hs : c.state ≠ .nread) :
    Handled c (processArithmeticCommand cfg env c g t incr).1 := by
  have hs' : (setNoreplyMaybe c t).state ≠ .nread := by
    unfold setNoreplyMaybe
    split <;> exact hs
  apply Handled.noreply (t := t)
  unfold processArithmeticCommand
  dsimp only
  split
  · exact handled_outString ..
  · split
    · split
      · exact handled_outString ..
      · exact handled_outString ..
      · exact handled_outString ..
      · exact handled_outString ..
      · exact .unchanged hs'
    · exact handled_outString ..

theorem processDeleteCommand_handled : Handled c (processDeleteCommand cfg c g t).1 := by
  unfold processDeleteCommand
  dsimp only
  split_ifs <;> first
    | exact handled_outString ..
    | exact (handled_outString ..).noreply
    | (split <;> first | exact handled_outString .. | exact (handled_outString ..).noreply)

theorem processStat_handled : Handled c (processStat env c g t).1 := by
  unfold processStat processStatsDetail processStatsCachedump
  dsimp only
  split_ifs <;> first | exact handled_writeAndFree .. | exact handled_outString .. | skip
  split
  · split <;> first | exact handled_writeAndFree .. | exact handled_outString ..
  · exact handled_outString ..

theorem processFlushAll_handled (h : processFlushAll cfg c g t = some (c', g')) : Handled c c' := by
  apply Handled.noreply (t := t)
  unfold processFlushAll at h
  dsimp only at h
  generalize setNoreplyMaybe c t = c₁ at h ⊢
  by_cases h1 : t.ntokens = if c₁.noreply then 3 else 2
  · rw [if_pos h1] at h
    cases h
    exact handled_outString ..
  rw [if_neg h1] at h
  by_cases h2 : t.ntokens = 2
  · rw [if_pos h2] at h
    cases h
  rw [if_neg h2] at h
  split at h <;> cases h <;> exact handled_outString ..

theorem processSlabsCommand_handled : Handled c (processSlabsCommand cfg env c g t).1 := by
  unfold processSlabsCommand processSlabsReassign processSlabsAutomoveCommand
  dsimp only
  split_ifs <;> first | exact handled_outString .. | exact (handled_outString ..).noreply | skip
  split <;> exact handled_outString ..

theorem processOther_handled {leftCom : Bytes} {rtn : Int} (hs : c.state ≠ .nread)
    (h : processOther cfg env c g t leftCom = some (c', g', rtn)) : Handled c c' := by
  unfold processOther at h
  split at h
  swap
  · cases h
    exact handled_outString ..
  obtain ⟨⟨c1, g1, n⟩, hproc, h⟩ := Option.map_eq_some_iff.mp h
  have h1 : Handled c c1 := by
    unfold ramcubeProcessCommands at hproc
    dsimp only at hproc
    split_ifs at hproc
    · cases hproc
      exact ⟨rfl, rfl, fun h => absurd h hs⟩
    · obtain ⟨⟨b, text⟩, _, hproc⟩ := Option.map_eq_some_iff.mp hproc
      cases hproc
      exact (handled_outString ..).after rfl rfl
    · cases hproc
      exact .unchanged hs
    · cases hproc
      exact .unchanged hs
    · cases hproc
      exact handled_outString ..
    · cases hproc
      exact .unchanged hs
  dsimp only at h
  split_ifs at h <;> cases h
  · exact ⟨h1.transport, h1.protocol, by simp⟩
  · exact h1
  · exact (handled_outString ..).after h1.transport h1.protocol

theorem processCommand_handled {command leftCom : Bytes} {rtn : Int} (hs : c.state ≠ .nread)
    (h : processCommand cfg env c g command leftCom = some (c', g', rtn)) : Handled c c' := by
  unfold processCommand at h
  dsimp only at h
  split at h
  · cases h
    exact processGetKeys_handled
  · cases h
    exact processUpdateCommand_handled
  · cases h
    exact processArithmeticCommand_handled hs
  · cases h
    exact processDeleteCommand_handled
  · cases h
    exact processTouchCommand_handled
  · cases h
    exact processStat_handled
  · obtain ⟨⟨c1, g1⟩, hf, h⟩ := Option.bind_eq_some_iff.mp h
    cases h
    exact processFlushAll_handled hf
  · cases h
    exact handled_outString ..
  · cases h
    exact ⟨rfl, rfl, by simp⟩
  · cases h
    exact processSlabsCommand_handled
  · cases h
    unfold processVerbosityCommand
    exact (handled_outString ..).noreply
  · exact processOther_handled hs h

/-! ## Blocks -/

theorem valueNext_handled {m : Int} {next : BinSubstate} {known : Prop} (h : ValueNext cfg c m next known c' g') : Handled c c' := by
  have hf := h.follows
  refine ⟨hf.transport, hf.protocol, fun hs => ?_⟩
  cases h with
  | read cmd it => exact ⟨_, _, rfl⟩
  | swallow err => exact absurd ((writeBinError_state c err m).symm.trans hs) (by simp)
  | unknown => exact absurd ((writeBinError_state c .UNKNOWN_COMMAND m).symm.trans hs) (by simp)

/-- What is done with a block leaves the bytes that follow it. -/
theorem completeNreadConn_handled (h : completeNreadConn cfg env c g = some (c', g')) : c'.rbuf = c.rbuf ∧ Handled c c' := by
  have hfinishes : Finishes c c' → c'.rbuf = c.rbuf ∧ Handled c c' := fun hf => ⟨hf.rbuf, hf.handled⟩
  have hvalue : ∀ {m : Int} {next : BinSubstate} {known : Prop}, ValueNext cfg c m next known c' g' → c'.rbuf = c.rbuf ∧ Handled c c' :=
    fun hn => ⟨hn.follows.rbuf, valueNext_handled hn⟩
  unfold completeNreadConn at h
  split at h
  swap
  · exact hfinishes (completeNreadAscii_finishes h)
  cases hs : c.substate with
  | noState => simp [completeNreadBinary, hs] at h
  | readingSetHeader =>
    simp only [completeNreadBinary, hs] at h
    split at h
    · exact hvalue (processBinAppendPrepend_next h)
    · exact hvalue (processBinUpdate_next h)
  | readSetValue =>
    simp only [completeNreadBinary, hs] at h
    exact hfinishes (completeUpdateBin_finishes h)
  | readingSaslAuth =>
    simp only [completeNreadBinary, hs] at h
    exact hvalue (processBinSaslAuth_next h)
  | readingSaslAuthData =>
    simp only [completeNreadBinary, hs] at h
    exact hfinishes (processBinCompleteSaslAuth_finishes h)
  | readingGetKey | readingTouchKey | readingStat | readingDelHeader | readingIncrHeader | readFlushExptime =>
    exact hfinishes (completeNreadBinary_noValue (by simp [NoValue, hs]) h)

/-! ## Requests -/

/-- A request was taken up: it is answered, or its extras and its key are read, which are as long as its header says. -/
structure TakenUp (c c' : Conn) : Prop extends Follows c c' where
  key : c'.state = .nread → c'.ritem = .packet [] ∧ c'.binaryHeader = c.binaryHeader ∧ c'.keylen = c.keylen ∧
    c'.rlbytes = c.binaryHeader.keylen.toNat + c.binaryHeader.extlen.toNat ∧ c.binaryHeader.keylen.toNat ≤ KEY_MAX_LENGTH

theorem dispatched_takenUp (hk : c.keylen = c.binaryHeader.keylen.toNat) (hl : c.binaryHeader.keylen.toNat ≤ KEY_MAX_LENGTH)
    (h : Dispatched c c') : TakenUp c c' := by
  refine ⟨h.follows, fun hs => ?_⟩
  have hread : ∀ next extra, extra = c.binaryHeader.extlen.toNat → (binReadKey c next extra).ritem = .packet [] ∧
      (binReadKey c next extra).binaryHeader = c.binaryHeader ∧ (binReadKey c next extra).keylen = c.keylen ∧
      (binReadKey c next extra).rlbytes = c.binaryHeader.keylen.toNat + c.binaryHeader.extlen.toNat ∧
      c.binaryHeader.keylen.toNat ≤ KEY_MAX_LENGTH := by
    rintro next extra rfl
    refine ⟨rfl, rfl, rfl, ?_, hl⟩
    rw [binReadKey, hk]
  cases h with
  | key next extra hn hx => exact hread next extra hx
  | update _ he => exact hread _ _ he.symm
  | append _ he => exact hread _ _ he.symm
  | sasl _ he => exact hread _ _ he.symm
  | answered _ hf => exact absurd hs hf.settled.not_nread
  | quit _ _ hq =>
    obtain hq | ⟨hq, _⟩ := hq <;> exact absurd (hq.symm.trans hs) (by simp)
  | unknown => exact absurd ((writeBinError_state ..).symm.trans hs) (by simp)

theorem handleBinaryProtocolError_takenUp (c : Conn) : TakenUp c (handleBinaryProtocolError c) := by
  obtain ⟨hr, ht, hp⟩ := writeBinError_same c .EINVAL 0
  exact ⟨⟨hr, ht, hp, .inl (writeBinError_zero c .EINVAL (Int.le_refl 0)).2⟩,
    fun hs => absurd ((writeBinError_state c .EINVAL 0).symm.trans hs) (by simp)⟩

theorem dispatchBinCommand_takenUp (hk : c.keylen = c.binaryHeader.keylen.toNat) : TakenUp c (dispatchBinCommand cfg c) := by
  have herror : ∀ c₁ : Conn, c₁.rbuf = c.rbuf → c₁.transport = c.transport → c₁.protocol = c.protocol → c₁.sbytes = c.sbytes →
      TakenUp c (handleBinaryProtocolError c₁) := by
    intro c₁ hr ht hp hb
    have h := handleBinaryProtocolError_takenUp c₁
    exact ⟨⟨h.rbuf.trans hr, h.transport.trans ht, h.protocol.trans hp, h.sbytes.imp (·.trans hb) id⟩,
      fun hs => absurd ((writeBinError_state c₁ .EINVAL 0).symm.trans hs) (by simp)⟩
  unfold dispatchBinCommand
  split
  · obtain ⟨hr, ht, hp⟩ := writeBinError_same c .AUTH_ERROR 0
    exact ⟨⟨hr, ht, hp, .inl (writeBinError_zero c .AUTH_ERROR (Int.le_refl 0)).2⟩,
      fun hs => absurd ((writeBinError_state c .AUTH_ERROR 0).symm.trans hs) (by simp)⟩
  · split
    · exact herror _ rfl rfl rfl rfl
    · next hlen =>
      extract_lets c₁
      have hsame : c₁.rbuf = c.rbuf ∧ c₁.transport = c.transport ∧ c₁.protocol = c.protocol ∧ c₁.sbytes = c.sbytes ∧
          c₁.keylen = c.keylen ∧ c₁.binaryHeader = c.binaryHeader := by
        unfold c₁
        split <;> exact ⟨rfl, rfl, rfl, rfl, rfl, rfl⟩
      obtain ⟨hr, ht, hp, hb, hkey, hh⟩ := hsame
      cases hd : dispatchBinOpcode cfg c₁ with
      | none => exact herror _ hr ht hp hb
      | some c' =>
        have h := dispatched_takenUp (by rw [hkey, hh, hk]) (by rw [hh]; exact Nat.not_lt.mp hlen) (dispatchBinOpcode_cases hd)
        refine ⟨⟨h.rbuf.trans hr, h.transport.trans ht, h.protocol.trans hp, h.sbytes.imp (·.trans hb) id⟩, fun hs => ?_⟩
        have hkeyed := h.key hs
        rwa [hh, hkey] at hkeyed

end RamCube
