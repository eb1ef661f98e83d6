import RamCube.Server.Requests

/-! # The data block of a storage command

A storage command line announces a block of `n` bytes and a line end. The block is read
to an item, or swallowed when there is no item for it, unless the line asked for no
reply: then `out_string` has already sent the connection to its next command. -/
namespace RamCube

variable {cfg : Config} {env : Env} {s s' : Session} {t : Tokens} {c : Conn}

/-! ## The line -/

/-- The line at the start of the read buffer, with its LF. -/
def nextLine (s : Session) : Bytes := s.c.rbuf.takeWhile (· != LF) ++ [LF]

/-- The next turn runs a text line with these words. -/
structure LineNext (cfg : Config) (s : Session) (t : Tokens) : Prop where
  running : s.stop = false
  count : 0 < cfg.reqsPerEvent
  state : s.c.state = .parseCmd
  text : (negotiate s.c).protocol ≠ .binary
  ends : LF ∈ s.c.rbuf
  words : tokenizeCommand (cText (chopLine (s.c.rbuf.takeWhile (· != LF)))) = t

/-- A storage command line with the arguments that `process_update_command` accepts. -/
structure StorageLine (t : Tokens) (comm : NRead) (handleCas : Bool) (flags : UInt32) (exptime n : Int)
    (reqCas : UInt64) : Prop where
  handler : handlerOf t = .update comm handleCas
  key : (t.value 1).length ≤ KEY_MAX_LENGTH
  args : updateArgs t = .ok ((flags, exptime), n)
  cas : (if handleCas then scanStrtoull (t.value 5) else .ok 0) = .ok reqCas
  bytes : 0 ≤ asInt (n + 2) ∧ 0 ≤ asInt (asInt (n + 2) - 2)

variable {comm : NRead} {handleCas : Bool} {flags : UInt32} {exptime n : Int} {reqCas : UInt64}

theorem and_ok {α β : Type} {x : Scanned α} {y : Scanned β} {a : α} {b : β} (h : x.and y = .ok (a, b)) :
    x = .ok a ∧ y = .ok b := by
  cases x with
  | ok a' =>
    cases y with
    | ok b' =>
      cases h
      exact ⟨rfl, rfl⟩
    | bad => cases h
    | range => cases h
  | bad => cases h
  | range => cases h

theorem safeStrtol_bounds {bs : Bytes} (h : safeStrtol bs = .ok n) : -2 ^ 31 ≤ n ∧ n < 2 ^ 31 := by
  unfold safeStrtol at h
  split at h
  · cases h
  · split at h
    · cases h
      exact asInt_bounds _
    · cases h

/-- The counts that pass the tests for a negative length. -/
theorem bytes_pass_iff {n : Int} (h1 : -2 ^ 31 ≤ n) (h2 : n < 2 ^ 31) :
    0 ≤ asInt (n + 2) ∧ 0 ≤ asInt (asInt (n + 2) - 2) ↔ 0 ≤ n ∧ n < 2 ^ 31 - 2 := by
  by_cases hroom : n + 2 < 2 ^ 31
  · rw [asInt_of_bounds (n := n + 2) (by omega) hroom, asInt_of_bounds (by omega) (by omega)]
    omega
  · -- the sum is negative as an `int`
    have hwrap : asInt (n + 2) = n + 2 - 2 ^ 32 := by
      rw [← asInt_sub, asInt_of_bounds (by omega) (by omega)]
    omega

/-- The count that is accepted has not wrapped around. -/
theorem StorageLine.count (hl : StorageLine t comm handleCas flags exptime n reqCas) :
    0 ≤ n ∧ n + 2 < 2 ^ 31 ∧ asInt (n + 2) = n + 2 := by
  obtain ⟨h1, h2⟩ := safeStrtol_bounds (and_ok hl.args).2
  obtain ⟨h0, hroom⟩ := (bytes_pass_iff h1 h2).mp hl.bytes
  exact ⟨h0, by omega, asInt_of_bounds (by omega) (by omega)⟩

/-- `item_alloc` has an item for the block. -/
def Allocated (cfg : Config) (env : Env) (g : Globals) (t : Tokens) (flags : UInt32) (exptime n : Int) : Prop :=
  (doItemAlloc cfg.toSettings (env.alloc g.store) g.store (t.value 1) (asInt flags.toNat)
    (realtime cfg.processStarted g.store (if exptime < 0 then REALTIME_MAXDELTA + 1 else exptime))
    (n + 2).toNat 0).2.isSome

/-! ## What an accepted line does -/

section

variable {g : Globals} {key : Bytes} {bits exp vlen : Int}

variable (c g comm reqCas) in
theorem startUpdate_refused (ha : (doItemAlloc cfg.toSettings (env.alloc g.store) g.store key bits
      (realtime cfg.processStarted g.store exp) vlen.toNat 0).2 = none) :
    ∃ text, (startUpdate cfg env c g comm key bits exp vlen reqCas).1 =
      { outString c text with writeAndGo := .swallow, sbytes := vlen } := by
  have hproc : (processUpdate cfg.toSettings (env.alloc g.store) g.store comm key bits
      (realtime cfg.processStarted g.store exp) vlen.toNat reqCas).2 = none := by
    unfold processUpdate
    generalize doItemAlloc .. = r at ha ⊢
    obtain ⟨s, _ | it⟩ := r
    · by_cases hc : comm = .set <;> simp [hc]
    · cases ha
  unfold startUpdate
  generalize processUpdate .. = r at hproc ⊢
  obtain ⟨s, _ | it⟩ := r
  · exact ⟨_, rfl⟩
  · cases hproc

variable (c g comm reqCas) in
theorem startUpdate_allocated (h0 : 0 ≤ vlen) (ha : (doItemAlloc cfg.toSettings (env.alloc g.store) g.store key bits
      (realtime cfg.processStarted g.store exp) vlen.toNat 0).2.isSome) :
    ∃ it, (startUpdate cfg env c g comm key bits exp vlen reqCas).1 =
      { c with item := some it, ritem := .item it 0, rlbytes := vlen, cmd := comm.num, state := .nread } := by
  have halloc : itemAlloc cfg.toSettings (env.alloc g.store) g.store key bits
      (realtime cfg.processStarted g.store exp) vlen = some (doItemAlloc cfg.toSettings (env.alloc g.store) g.store
        key bits (realtime cfg.processStarted g.store exp) vlen.toNat 0) := if_pos h0
  unfold startUpdate processUpdate
  generalize doItemAlloc .. = r at ha halloc ⊢
  obtain ⟨s, _ | it⟩ := r
  · cases ha
  · refine ⟨it, ?_⟩
    simp only [nbytes_setCas, itemAlloc_nbytes halloc]

theorem outString_same (c : Conn) (str : Bytes) :
    (outString c str).transport = c.transport ∧ (outString c str).protocol = c.protocol :=
  ⟨core_field Conn.transport (fun _ => rfl) (core_outString c str),
    core_field Conn.protocol (fun _ => rfl) (core_outString c str)⟩

theorem startUpdate_same : (startUpdate cfg env c g comm key bits exp vlen reqCas).1.transport = c.transport ∧
    (startUpdate cfg env c g comm key bits exp vlen reqCas).1.protocol = c.protocol := by
  unfold startUpdate
  generalize processUpdate .. = r
  obtain ⟨s, _ | it⟩ := r
  · exact outString_same c _
  · exact ⟨rfl, rfl⟩

end

theorem processUpdateCommand_eq (hl : StorageLine t comm handleCas flags exptime n reqCas) (g : Globals) :
    processUpdateCommand cfg env c g t comm handleCas =
      startUpdate cfg env (setNoreplyMaybe c t) { g with erange := false } comm (t.value 1) (asInt flags.toNat)
        (if exptime < 0 then REALTIME_MAXDELTA + 1 else exptime) (n + 2) reqCas := by
  obtain ⟨h0, _, hn⟩ := hl.count
  have hneg : ¬(asInt (n + 2) < 0 ∨ asInt (asInt (n + 2) - 2) < 0) := by
    obtain ⟨hb, hb2⟩ := hl.bytes
    omega
  unfold processUpdateCommand
  simp only [if_neg (Nat.not_lt.mpr hl.key), hl.args, hl.cas, if_neg hneg]
  rw [hn]
  cases handleCas <;> rfl

/-- The session after a turn in which a line ran. -/
def afterLine (s : Session) (r : Conn × Globals) : Session :=
  { s with
    c := { r.1 with rbuf := s.c.rbuf.drop (nextLine s).length }
    g := r.2
    executed := s.executed ++ [.line (cText (chopLine (s.c.rbuf.takeWhile (· != LF))))] }

/-- What an accepted line does. -/
def startStorage (cfg : Config) (env : Env) (s : Session) (t : Tokens) (comm : NRead) (flags : UInt32)
    (exptime n : Int) (reqCas : UInt64) : Conn × Globals :=
  startUpdate cfg env (setNoreplyMaybe { negotiate s.c with out := [] } t) { s.g with erange := false } comm
    (t.value 1) (asInt flags.toNat) (if exptime < 0 then REALTIME_MAXDELTA + 1 else exptime) (n + 2) reqCas

theorem dropWhile_nextLine (h : LF ∈ s.c.rbuf) :
    s.c.rbuf.dropWhile (· != LF) = LF :: s.c.rbuf.drop (nextLine s).length := by
  have hlen : (nextLine s).length = (s.c.rbuf.takeWhile (· != LF)).length + 1 := List.length_append
  rw [hlen]
  generalize s.c.rbuf = bs at h
  induction bs with
  | nil => cases h
  | cons b bs ih =>
    by_cases hb : b = LF
    · simp [hb]
    · have hmem : LF ∈ bs := (List.mem_cons.mp h).resolve_left (Ne.symm hb)
      simpa [hb] using ih hmem

theorem tryReadAscii_line {g : Globals} {cont : Bytes} (hd : c.rbuf.dropWhile (· != LF) = LF :: cont) :
    tryReadAscii cfg env c g =
      (processCommand cfg env { c with out := [] } g (cText (chopLine (c.rbuf.takeWhile (· != LF)))) (cText cont)).map
        fun (c', g, rtn) => ⟨{ c' with rbuf := if rtn = 1 then [] else cont }, g, false,
          [.line (cText (chopLine (c.rbuf.takeWhile (· != LF))))]⟩ := by
  unfold tryReadAscii
  rw [hd]

/-- The turn in which a line runs that has nothing to do with the bytes behind it. -/
theorem line_turn {r : Conn × Globals} (hn : LineNext cfg s t)
    (hp : ∀ command leftCom, tokenizeCommand command = t →
      processCommand cfg env { negotiate s.c with out := [] } s.g command leftCom = returnZero r) :
    s.turn cfg env .go = some (afterLine s r) := by
  obtain ⟨hr, _⟩ := negotiate_same s.c
  have hd := dropWhile_nextLine hn.ends
  have hw := hn.words
  rw [← hr] at hd hw
  have hread : tryReadAscii cfg env (negotiate s.c) s.g =
      some ⟨(afterLine s r).c, r.2, false, [.line (cText (chopLine (s.c.rbuf.takeWhile (· != LF))))]⟩ := by
    rw [tryReadAscii_line hd, hp _ _ hw, afterLine, hr]
    rfl
  unfold Session.turn
  rw [hn.running, hn.state]
  simp only [Bool.false_eq_true, if_false, Session.parseTurn, tryReadCommand, if_neg hn.text, hread]
  rfl

theorem storage_turn (hn : LineNext cfg s t) (hl : StorageLine t comm handleCas flags exptime n reqCas) :
    s.turn cfg env .go = some (afterLine s (startStorage cfg env s t comm flags exptime n reqCas)) := by
  refine line_turn hn fun command leftCom hw => ?_
  unfold processCommand startStorage
  rw [hw, ← processUpdateCommand_eq hl]
  dsimp only
  rw [hl.handler]

/-! ## What is owed behind it -/

theorem setNoreplyMaybe_same (c : Conn) (t : Tokens) : (setNoreplyMaybe c t).transport = c.transport ∧
    (setNoreplyMaybe c t).protocol = c.protocol := by
  unfold setNoreplyMaybe
  split <;> exact ⟨rfl, rfl⟩

/-- The line asked for no reply, or the flag is left over from before. -/
def AsksNoreply (s : Session) (t : Tokens) : Prop := (setNoreplyMaybe s.c t).noreply = true

theorem setNoreplyMaybe_negotiate (s : Session) (t : Tokens) :
    (setNoreplyMaybe { negotiate s.c with out := [] } t).noreply = (setNoreplyMaybe s.c t).noreply := by
  have hno : (negotiate s.c).noreply = s.c.noreply := by
    unfold negotiate
    split <;> rfl
  unfold setNoreplyMaybe
  split
  · rfl
  · exact hno

theorem afterLine_position (hn : LineNext cfg s t) (r : Conn × Globals) :
    (afterLine s r).position = s.position + (nextLine s).length := by
  have hlen : (nextLine s).length ≤ s.c.rbuf.length := by
    have hd := congrArg List.length (dropWhile_nextLine hn.ends)
    have hsplit := congrArg List.length (List.takeWhile_append_dropWhile (p := (· != LF)) (l := s.c.rbuf))
    rw [List.length_append] at hsplit
    simp only [nextLine, List.length_append, List.length_cons, List.length_nil, List.length_drop] at hd ⊢
    omega
  simp only [Session.position, afterLine, List.length_drop]
  omega

/-- The connection after a line whose item is there. -/
theorem startStorage_allocated (hn : LineNext cfg s t) (hl : StorageLine t comm handleCas flags exptime n reqCas)
    (ha : Allocated cfg env s.g t flags exptime n) :
    Owes cfg (afterLine s (startStorage cfg env s t comm flags exptime n reqCas)).c (n + 2) := by
  obtain ⟨h0, _, _⟩ := hl.count
  obtain ⟨it, heq⟩ := startUpdate_allocated (setNoreplyMaybe { negotiate s.c with out := [] } t) comm reqCas
    { s.g with erange := false } (show 0 ≤ n + 2 by omega) ha
  refine (Owes.of_nread ?_).mpr ⟨?_, .inl ⟨⟨⟨it, 0, ?_, ?_⟩, ?_⟩, ?_⟩⟩
  all_goals simp only [afterLine, startStorage, heq]
  · omega
  · rw [if_neg]
    · simp
    · rw [(setNoreplyMaybe_same _ t).2]
      exact hn.text

variable (comm reqCas) in
/-- The connection after a line for which there is no item. -/
theorem startStorage_refused (ha : ¬Allocated cfg env s.g t flags exptime n) :
    ∃ text, (startStorage cfg env s t comm flags exptime n reqCas).1 =
      { outString (setNoreplyMaybe { negotiate s.c with out := [] } t) text with
        writeAndGo := .swallow, sbytes := n + 2 } :=
  startUpdate_refused (setNoreplyMaybe { negotiate s.c with out := [] } t) comm reqCas
    { s.g with erange := false } (Option.not_isSome_iff_eq_none.mp ha)

theorem startStorage_owes (hn : LineNext cfg s t) (hl : StorageLine t comm handleCas flags exptime n reqCas)
    (h : ¬AsksNoreply s t ∨ Allocated cfg env s.g t flags exptime n) :
    Owes cfg (afterLine s (startStorage cfg env s t comm flags exptime n reqCas)).c (n + 2) := by
  by_cases ha : Allocated cfg env s.g t flags exptime n
  · exact startStorage_allocated hn hl ha
  · obtain ⟨h0, _, _⟩ := hl.count
    have hno := h.resolve_right ha
    rw [AsksNoreply, ← setNoreplyMaybe_negotiate] at hno
    obtain ⟨text, heq⟩ := startStorage_refused comm reqCas ha
    refine (Owes.of_write (.inl ?_)).mpr ?_
    · simp [afterLine, heq, outString, hno]
    · have hnext : (afterLine s (startStorage cfg env s t comm flags exptime n reqCas)).c.next = .swallow := by
        simp [Conn.next, afterLine, heq, outString, hno]
      have hsb : (afterLine s (startStorage cfg env s t comm flags exptime n reqCas)).c.sbytes = n + 2 := by
        simp [afterLine, heq]
      rw [hnext]
      exact ⟨hsb, by omega⟩

theorem afterLine_same {r : Conn × Globals} (hn : LineNext cfg s t)
    (hr : r.1.transport = (negotiate s.c).transport ∧ r.1.protocol = (negotiate s.c).protocol) :
    (afterLine s r).c.transport = s.c.transport ∧ (afterLine s r).c.protocol ≠ .binary :=
  ⟨hr.1.trans (negotiate_same s.c).2.1, fun hb => hn.text (hr.2.symm.trans hb)⟩

theorem startStorage_same (hn : LineNext cfg s t) :
    (afterLine s (startStorage cfg env s t comm flags exptime n reqCas)).c.transport = s.c.transport ∧
      (afterLine s (startStorage cfg env s t comm flags exptime n reqCas)).c.protocol ≠ .binary := by
  obtain ⟨htr, hp⟩ := setNoreplyMaybe_same { negotiate s.c with out := [] } t
  refine afterLine_same hn ?_
  unfold startStorage
  exact ⟨startUpdate_same.1.trans htr, startUpdate_same.2.trans hp⟩

/-! ## Whole commands -/

/-- What was interpreted as a command. -/
def interpreted (executed : List Executed) : List Executed :=
  executed.filter fun
    | .block _ => false
    | _ => true

theorem BusyTurn.interpreted (ht : BusyTurn cfg env s s') : interpreted s'.executed = interpreted s.executed := by
  cases ht with
  | completed c' g' hs hz hc => simp [RamCube.interpreted]
  | closed hs => rfl
  | sent hs ho =>
    unfold Session.transmitComplete
    split <;> rfl
  | same | reset | closing | dropped | received | swallowed | swallowDone => rfl

/-- No command is interpreted on the way to the next one. -/
theorem Serves.interpreted {es : List ServerEvent} (hr : Serves cfg s es s') :
    interpreted s'.executed = interpreted s.executed := by
  unfold Serves at hr
  refine Run.invariant_of_guard (I := fun u => RamCube.interpreted u.executed = RamCube.interpreted s.executed)
    (fun u e v hu hb ht => ?_) hr rfl
  cases e with
  | turn env inp => exact (turn_busy hb ht).interpreted.trans hu
  | others g =>
    cases ht
    exact hu

/-- From the line to the next command exactly `n + 2` bytes are taken from the stream,
no other command is interpreted, and nothing on the way is undefined. -/
def TakesBlock (cfg : Config) (env : Env) (s : Session) (n : Int) : Prop :=
  ∃ s₁, s.turn cfg env .go = some s₁ ∧ ∀ es s', Serves cfg s₁ es s' →
    interpreted s'.executed = interpreted s₁.executed ∧
    (AtCommand s' → s'.position = s.position + ((nextLine s).length + (n + 2))) ∧
    (¬AtCommand s' → ∀ env inp, (s'.turn cfg env inp).isSome)

theorem takesBlock (hn : LineNext cfg s t) (hl : StorageLine t comm handleCas flags exptime n reqCas)
    (hu : s.c.transport ≠ .udp) (hr : cfg.ramcube = none)
    (h : ¬AsksNoreply s t ∨ Allocated cfg env s.g t flags exptime n) : TakesBlock cfg env s n := by
  have howes := startStorage_owes hn hl h
  have htr : (afterLine s (startStorage cfg env s t comm flags exptime n reqCas)).c.transport = s.c.transport :=
    (startStorage_same hn).1
  refine ⟨_, storage_turn hn hl, fun es s' hrun => ⟨hrun.interpreted, fun hat => ?_, fun hbusy env inp => ?_⟩⟩
  · rw [howes.paid hrun (by rwa [htr]) hat, afterLine_position hn]
    omega
  · exact howes.run_isSome env inp hrun hbusy (.inr hr)

/-- Without an item and without a reply the bytes of the block are not waited for. -/
theorem TakesBlock.allocated (hb : TakesBlock cfg env s n) (hn : LineNext cfg s t)
    (hl : StorageLine t comm handleCas flags exptime n reqCas) (hu : s.c.transport ≠ .udp)
    (h : AsksNoreply s t) : Allocated cfg env s.g t flags exptime n := by
  by_contra ha
  obtain ⟨h0, _, _⟩ := hl.count
  obtain ⟨text, heq⟩ := startStorage_refused comm reqCas ha
  have hstate : (afterLine s (startStorage cfg env s t comm flags exptime n reqCas)).c.state = .newCmd := by
    rw [AsksNoreply, ← setNoreplyMaybe_negotiate] at h
    simp [afterLine, heq, outString, h]
  have howes : Owes cfg (afterLine s (startStorage cfg env s t comm flags exptime n reqCas)).c 0 :=
    (Owes.idle (by simp [Idle, hstate])).mpr rfl
  obtain ⟨s₁, ht, hb⟩ := hb
  rw [storage_turn hn hl] at ht
  obtain rfl := Option.some.inj ht
  obtain ⟨es, s', hrun, hat⟩ := reaches_newCmd env hn.count hstate
  have hpos := howes.paid hrun (by rwa [(startStorage_same hn).1]) hat
  rw [(hb es s' hrun).2.1 hat, afterLine_position hn] at hpos
  omega

/-- The `n + 2` bytes behind an accepted storage command line are its data block, if and
only if a reply is wanted or the item was allocated. -/
theorem storage_takes_block_iff (hn : LineNext cfg s t) (hl : StorageLine t comm handleCas flags exptime n reqCas)
    (hu : s.c.transport ≠ .udp) (hr : cfg.ramcube = none) :
    TakesBlock cfg env s n ↔ ¬AsksNoreply s t ∨ Allocated cfg env s.g t flags exptime n := by
  refine ⟨fun hb => ?_, takesBlock hn hl hu hr⟩
  by_cases h : AsksNoreply s t
  · exact .inr (hb.allocated hn hl hu h)
  · exact .inl h

/-! ## Two lines -/

theorem lineNext_hasRead (bs : Bytes) (hb : bs.getD 0 0 ≠ 0x80) (hl : LF ∈ bs) :
    LineNext smallServer (hasRead bs) (tokenizeCommand (cText (chopLine (bs.takeWhile (· != LF))))) where
  running := rfl
  count := by decide
  state := rfl
  text := by
    have hb' : (hasRead bs).c.rbuf0 ≠ 0x80 := hb
    unfold negotiate
    rw [if_pos (.inl rfl)]
    simp [hb']
  ends := hl
  words := rfl

/-- A SET of five bytes. -/
def setFive : Bytes := ascii "set k 0 0 5" ++ [CR, LF]

/-- A SET of more bytes than an item can hold, without a reply. -/
def setHuge : Bytes := ascii "set k 0 0 2000000 noreply" ++ [CR, LF]

theorem storageLine_setFive : StorageLine (tokenizeCommand (cText (chopLine (setFive.takeWhile (· != LF)))))
    .set false 0 0 5 0 := by
  constructor <;> decide +kernel

theorem storageLine_setHuge : StorageLine (tokenizeCommand (cText (chopLine (setHuge.takeWhile (· != LF)))))
    .set false 0 0 2000000 0 := by
  constructor <;> decide +kernel

theorem storage_takes_block_iff_set : TakesBlock smallServer default (hasRead setFive) 5 ↔
    ¬AsksNoreply (hasRead setFive) (tokenizeCommand (cText (chopLine (setFive.takeWhile (· != LF))))) ∨
      Allocated smallServer default (hasRead setFive).g
        (tokenizeCommand (cText (chopLine (setFive.takeWhile (· != LF))))) 0 0 5 :=
  storage_takes_block_iff (lineNext_hasRead setFive (by decide) (by decide)) storageLine_setFive (by decide) rfl

/-- The block of the huge SET is left for the next commands. -/
theorem storage_leaves_block : ∃ cfg env s t comm handleCas flags exptime n reqCas, LineNext cfg s t ∧
    StorageLine t comm handleCas flags exptime n reqCas ∧ s.c.transport ≠ .udp ∧ cfg.ramcube = none ∧
    ¬TakesBlock cfg env s n := by
  have hn := lineNext_hasRead setHuge (by decide) (by decide)
  refine ⟨smallServer, default, hasRead setHuge, _, .set, false, 0, 0, 2000000, 0, hn, storageLine_setHuge,
    by decide, rfl, fun hb => ?_⟩
  have ha := hb.allocated hn storageLine_setHuge (by decide) (by unfold AsksNoreply; decide +kernel)
  revert ha
  unfold Allocated
  decide +kernel

end RamCube
