import RamCube.Server.DataBlock
import RamCube.Server.NetworkReads

/-! # The connection of a primary at its backup

The backup takes what follows a BACKUP_REQUEST line in its buffer for the record and
drops the whole buffer. `Feed` is what such a connection has of the stream: the bytes
not handled yet, the backup, and what was answered. The machine of the connection
attends to a feed (`Attends`): reads add to the buffer, and each line is one step of the
feed (`LineServed`). -/
namespace RamCube

/-! ## Requests -/

/-- A BACKUP_REQUEST: the address of the connection that waits for it, and a record. -/
structure BackupRequest where
  dataConnPtr : Nat
  record : Record
  ptr_pos : 0 < dataConnPtr
  ptr_lt : dataConnPtr < 2 ^ 63

theorem BackupRequest.eq_iff {a b : BackupRequest} : (a.dataConnPtr = b.dataConnPtr ∧ a.record = b.record) ↔ a = b := by
  cases a
  cases b
  simp

instance : DecidableEq BackupRequest := fun _ _ => decidable_of_iff _ BackupRequest.eq_iff

/-- The command line of a request, without its end. -/
def requestLine (dataConnPtr : Nat) : Bytes := ascii "BACKUP_REQUEST " ++ decimal dataConnPtr

/-- A request as its primary writes it. -/
def BackupRequest.wire (p : Address) (r : BackupRequest) : Bytes :=
  requestLine r.dataConnPtr ++ CR :: LF :: message p r.record

def wires (p : Address) (rs : List BackupRequest) : Bytes := rs.flatMap (BackupRequest.wire p)

/-- The line that answers a request. -/
def BackupRequest.reply (r : BackupRequest) : Bytes := outLine (replyText r.dataConnPtr)

def replies (rs : List BackupRequest) : Bytes := rs.flatMap BackupRequest.reply

theorem space_not_mem_decimal (n : Nat) : space ∉ decimal n :=
  fun h => (digit_ne (mem_decimal h)).2.2.2.2.2 rfl

theorem tokenize_requestLine (ptr : Nat) :
    tokenizeCommand (requestLine ptr) = ⟨[ascii "BACKUP_REQUEST", decimal ptr], none⟩ := by
  have hword : space ∉ ascii "BACKUP_REQUEST" := by decide +kernel
  have hsplit : requestLine ptr = ascii "BACKUP_REQUEST" ++ (space :: (decimal ptr ++ [])) := by
    simp [requestLine, ascii, space]
  rw [hsplit, tokenizeCommand, tokenizeFrom_word _ _ hword, List.nil_append, tokenizeFrom, if_pos rfl,
    if_neg (by decide +kernel), if_neg (by decide), tokenizeFrom_word _ _ (space_not_mem_decimal ptr),
    List.nil_append, tokenizeFrom, if_neg (decimal_ne_nil ptr)]

theorem mem_requestLine {ptr : Nat} {b : UInt8} (h : b ∈ requestLine ptr) : b ≠ 0 ∧ b ≠ LF ∧ b ≠ CR := by
  have hword : ∀ b ∈ ascii "BACKUP_REQUEST ", b ≠ 0 ∧ b ≠ LF ∧ b ≠ CR := by decide +kernel
  obtain h | h := List.mem_append.mp h
  · exact hword b h
  · obtain ⟨h0, hlf, hcr, _⟩ := digit_ne (mem_decimal h)
    exact ⟨h0, hlf, hcr⟩

/-! ## What the connection has of the stream -/

structure Feed where
  /-- the bytes in the read buffer -/
  buf : Bytes
  backup : Backup
  said : Bytes
  /-- the size of the read buffer when more is read -/
  rsize : Nat

/-- A line of the buffer is handled: a request with all that follows it, or the rest of
the end of a line, which is no command. -/
inductive LineServed (os : Os) : Feed → Feed → Prop where
  | request {ptr rsize : Nat} {leftCom said text : Bytes} {b b' : Backup} (h0 : ∀ x ∈ leftCom, x ≠ 0)
      (h : backupRequest os b (decimal ptr) leftCom = some (b', text)) :
      LineServed os ⟨requestLine ptr ++ CR :: LF :: leftCom, b, said, rsize⟩
        ⟨[], b', said ++ outLine text, shrunkSize rsize 0⟩
  | lineEnd {rsize : Nat} {eol more said : Bytes} {b : Backup} (h : eol ∈ [[LF], [CR, LF]]) :
      LineServed os ⟨eol ++ more, b, said, rsize⟩ ⟨more, b, said ++ outLine (ascii "ERROR"), shrunkSize rsize more.length⟩

/-- The text of a message that is followed by others. -/
theorem wires_cons (p : Address) (r : BackupRequest) (rs : List BackupRequest) :
    wires p (r :: rs) = requestLine r.dataConnPtr ++ CR :: LF :: (message p r.record ++ wires p rs) := by
  simp [wires, BackupRequest.wire]

theorem Address.text_ne_zero (p : Address) {b : UInt8} (h : b ∈ p.text) : b ≠ 0 := by
  simp only [Address.text, List.mem_append, List.mem_cons] at h
  obtain h | rfl | h := h
  · exact (p.mem_ip h).1
  · exact show (58 : UInt8) ≠ 0 by simp
  · exact (digit_ne (mem_decimal h)).1

theorem message_ne_zero {p : Address} {r : Record} {b : UInt8} (h : b ∈ message p r) : b ≠ 0 := by
  simp only [message, List.mem_append, List.mem_cons, List.not_mem_nil, or_false] at h
  obtain (h | h) | rfl | rfl := h
  · exact r.ok h
  · exact p.text_ne_zero h
  · exact show (13 : UInt8) ≠ 0 by simp
  · exact show (10 : UInt8) ≠ 0 by simp

theorem wires_ne_zero {p : Address} {rs : List BackupRequest} {b : UInt8} (h : b ∈ wires p rs) : b ≠ 0 := by
  obtain ⟨r, _, h⟩ := List.mem_flatMap.mp h
  simp only [BackupRequest.wire, List.mem_append, List.mem_cons] at h
  obtain h | rfl | rfl | h := h
  · exact (mem_requestLine h).1
  · exact show (13 : UInt8) ≠ 0 by simp
  · exact show (10 : UInt8) ≠ 0 by simp
  · exact message_ne_zero h

/-- A request in the buffer is handled as one, with all that follows it. -/
theorem LineServed.request_inv {os : Os} {f f' : Feed} {r : BackupRequest} {leftCom : Bytes}
    (h : LineServed os f f') (hbuf : f.buf = requestLine r.dataConnPtr ++ CR :: LF :: leftCom) :
    ∃ b', appendToSegment os f.backup leftCom = some b' ∧ f' = ⟨[], b', f.said ++ r.reply, shrunkSize f.rsize 0⟩ := by
  have hcr : ∀ ptr, CR ∉ requestLine ptr := fun ptr h => (mem_requestLine h).2.2 rfl
  cases h with
  | @request ptr rsize leftCom' said text b b' h0 h =>
    obtain ⟨hline, hrest⟩ := append_cons_inj (hcr ptr) (hcr r.dataConnPtr) hbuf
    obtain rfl : ptr = r.dataConnPtr := decimal_inj (List.append_cancel_left hline)
    obtain rfl := (List.cons.inj hrest).2
    have htext : text = replyText r.dataConnPtr :=
      backupRequest_reply (Nat.lt_trans r.ptr_lt (by simp)) h
    simp only [backupRequest, Option.ite_none_left_eq_some, Option.bind_eq_bind, Option.bind_eq_some_iff,
      Option.some.injEq, Prod.mk.injEq] at h
    obtain ⟨_, b₁, happ, rfl, _⟩ := h
    exact ⟨b₁, happ, by rw [htext]; rfl⟩
  | @lineEnd rsize eol more said b he =>
    exfalso
    obtain ⟨rest, hline⟩ : ∃ rest, requestLine r.dataConnPtr = 66 :: rest := ⟨_, rfl⟩
    simp only [List.mem_cons, List.not_mem_nil, or_false] at he
    rw [hline] at hbuf
    rcases he with rfl | rfl <;> simp [CR, LF] at hbuf

theorem LineServed.of_append {os : Os} {f : Feed} {r : BackupRequest} {leftCom : Bytes} {b' : Backup}
    (hbuf : f.buf = requestLine r.dataConnPtr ++ CR :: LF :: leftCom) (h0 : ∀ x ∈ leftCom, x ≠ 0)
    (h : appendToSegment os f.backup leftCom = some b') : ∃ f', LineServed os f f' := by
  obtain ⟨buf, b, said, rsize⟩ := f
  simp only at hbuf h
  subst hbuf
  have hptr : strtol (decimal r.dataConnPtr) = r.dataConnPtr := by simpa using strtol_decimal r.dataConnPtr [] nofun
  have hne : strtol (decimal r.dataConnPtr) ≠ 0 := by
    rw [hptr]
    exact_mod_cast Nat.ne_of_gt r.ptr_pos
  have hreq : backupRequest os b (decimal r.dataConnPtr) leftCom =
      some (b', ascii "BACKUP_REPLY " ++ decimal (strtol (decimal r.dataConnPtr) % 2 ^ 64).toNat) := by
    unfold backupRequest
    rw [if_neg hne, h]
    rfl
  exact ⟨_, .request h0 hreq⟩

/-! ## The lines on the connection -/

section

variable {cfg : Config} {env : Env} {c : Conn} {g : Globals}

theorem handlerOf_other {t : Tokens} (h : t.value 0 ∉ [ascii "get", ascii "bget", ascii "add", ascii "set",
    ascii "replace", ascii "prepend", ascii "append", ascii "cas", ascii "incr", ascii "gets", ascii "decr",
    ascii "delete", ascii "touch", ascii "stats", ascii "flush_all", ascii "version", ascii "quit", ascii "slabs",
    ascii "verbosity"]) : handlerOf t = .other := by
  simp only [List.mem_cons, List.not_mem_nil, or_false, not_or] at h
  have hnone : updateComm (t.value 0) = none := by simp [updateComm, h]
  simp [handlerOf, h, hnone]

theorem processCommand_other {command leftCom : Bytes} (h : handlerOf (tokenizeCommand command) = .other) :
    processCommand cfg env c g command leftCom = processOther cfg env c g (tokenizeCommand command) leftCom := by
  unfold processCommand
  dsimp only
  rw [h]

/-- A line that is a request. -/
theorem processCommand_request {ptr : Nat} {leftCom : Bytes} (hr : cfg.ramcubeMode = true)
    (hc : c.mType = .BACKUP_SERVER) : processCommand cfg env c g (requestLine ptr) leftCom =
      (backupRequest env.os g.backup (decimal ptr) leftCom).map fun (b, text) =>
        (outString { c with dataConnPtr := strtol (decimal ptr) } text, { g with backup := b }, 1) := by
  have ht := tokenize_requestLine ptr
  have hother : handlerOf (tokenizeCommand (requestLine ptr)) = .other := by
    rw [ht]
    refine handlerOf_other (show ascii "BACKUP_REQUEST" ∉ _ from ?_)
    decide +kernel
  rw [processCommand_other hother, ht]
  simp only [processOther, hr, if_true, ramcubeProcessCommands, Tokens.ntokens, Tokens.value, hc, List.length_cons,
    List.length_nil, List.getD_cons_zero, List.getD_cons_succ]
  cases backupRequest env.os g.backup (decimal ptr) leftCom with
  | none => simp
  | some r => simp

/-- What is left of the end of a line is no command. -/
theorem processCommand_lineEnd {command leftCom : Bytes} (hr : cfg.ramcubeMode = true) (hcr : command = [] ∨ command = [CR]) :
    processCommand cfg env c g command leftCom = some (outString c (ascii "ERROR"), g, 0) := by
  have hwords : tokenizeCommand command = ⟨[], none⟩ ∨ tokenizeCommand command = ⟨[[CR]], none⟩ :=
    hcr.imp (fun h => by rw [h]; rfl) fun h => by rw [h]; rfl
  have hother : handlerOf (tokenizeCommand command) = .other := by
    rcases hwords with ht | ht <;> rw [ht] <;> exact handlerOf_other (by decide +kernel)
  rw [processCommand_other hother]
  rcases hwords with ht | ht
  · rw [ht]
    simp [processOther, hr, ramcubeProcessCommands, Tokens.ntokens]
  · have hword : [CR] ∉ [ascii "HEARTBEAT", ascii "CRASH", ascii "CRASHED"] := by decide +kernel
    rw [ht]
    simp [processOther, hr, ramcubeProcessCommands, Tokens.ntokens, Tokens.value] at hword ⊢
    simp [hword]

end

/-! ## The machine of the connection -/

/-- Inputs that are no reads and no failures. -/
def Input.calm : Input → Bool
  | .event | .go | .wrote _ | .again => true
  | _ => false

/-- The connection of a primary: its machine, and `rsize`. -/
structure BackupConn where
  s : Session
  rsize : Nat

/-- `rsize` after a turn: `reset_cmd_handler` gives a large buffer back. -/
def BackupConn.sizeAfter (k : BackupConn) (inp : Input) : Nat :=
  if k.s.stop = false ∧ k.s.c.state = .newCmd ∧ inp = .go ∧ 1 ≤ k.s.nreqs then shrunkSize k.rsize k.s.c.rbuf.length
  else k.rsize

/-- A turn, a call of `try_read_network` that brings something, with the results of its reads,
or steps of other threads, which leave the backup alone. -/
inductive BackupEvent where
  | turn (env : Env) (inp : Input)
  | read (results : List ReadResult)
  | others (g : Globals)

def BackupHappens (cfg : Config) (k : BackupConn) : BackupEvent → BackupConn → Prop
  | .turn env inp, k' => inp.calm = true ∧ k.s.turn cfg env inp = some k'.s ∧ k'.rsize = k.sizeAfter inp
  | .read results, k' => (k.s.stop = false ∧ k.s.c.state = .read) ∧ ∃ got ≠ [],
      networkCall 4 k.rsize k.s.c.rbuf.length results = some (got, k'.rsize, []) ∧ k.s.turn cfg default (.data got) = some k'.s
  | .others g, k' => g.backup = k.s.g.backup ∧ k' = { k with s := { k.s with g := g } }

/-- The results of `read` in a run. Those that find nothing to begin with are left out. -/
def readsOf (es : List BackupEvent) : List ReadResult :=
  es.flatMap fun
    | .read results => results
    | _ => []

/-- How far the machine is with what it was given, and what it sent of the answers. -/
def Phase (s : Session) (f : Feed) : Prop :=
  match s.c.state with
  | .waiting | .read => LF ∉ f.buf ∧ s.sent = f.said
  | .newCmd | .parseCmd => s.sent = f.said
  | .write => s.c.writeAndGo = .newCmd ∧ s.sent ++ s.c.out = f.said
  | _ => False

/-- The machine of a connection of a primary, and what the connection has of the stream. -/
structure Attends (s : Session) (f : Feed) : Prop where
  transport : s.c.transport = .tcp
  protocol : s.c.protocol = .ascii
  role : s.c.mType = .BACKUP_SERVER
  noreply : s.c.noreply = false
  buf : s.c.rbuf = f.buf
  backup : s.g.backup = f.backup
  phase : Phase s f

/-- A request with what follows it, or what is left of the end of a line. -/
inductive Line : Bytes → Prop where
  | request {ptr : Nat} {leftCom : Bytes} (h0 : ∀ x ∈ leftCom, x ≠ 0) :
      Line (requestLine ptr ++ CR :: LF :: leftCom)
  | lineEnd {eol more : Bytes} (h : eol ∈ [[LF], [CR, LF]]) : Line (eol ++ more)

/-- A line can be handled where it does not run over a buffer. -/
theorem Line.served_of_request {os : Os} {f : Feed} (hl : Line f.buf)
    (h : ∀ ptr leftCom, f.buf = requestLine ptr ++ CR :: LF :: leftCom → (∀ x ∈ leftCom, x ≠ 0) →
      (backupRequest os f.backup (decimal ptr) leftCom).isSome) : ∃ f', LineServed os f f' := by
  obtain ⟨buf, b, said, rsize⟩ := f
  simp only at hl h
  cases hl with
  | @request ptr leftCom h0 =>
    have hs := h ptr leftCom rfl h0
    obtain ⟨⟨b', text⟩, hreq⟩ := Option.isSome_iff_exists.mp hs
    exact ⟨_, .request h0 hreq⟩
  | lineEnd heol => exact ⟨_, .lineEnd heol⟩

section

variable {cfg : Config} {env : Env} {s s' : Session} {f : Feed}

theorem turn_parseCmd {inp : Input} (hst : s.stop = false) (hs : s.c.state = .parseCmd) :
    s.turn cfg env inp = s.parseTurn cfg env inp := by
  simp [Session.turn, hst, hs]

/-- The turn in which a line is parsed. -/
theorem Attends.parse_turn {cont : Bytes} {r : Option (Conn × Globals × Int)} (ha : Attends s f) (hst : s.stop = false)
    (hs : s.c.state = .parseCmd) (hd : s.c.rbuf.dropWhile (· != LF) = LF :: cont)
    (hp : processCommand cfg env { s.c with out := [] } s.g (cText (chopLine (s.c.rbuf.takeWhile (· != LF))))
      (cText cont) = r) :
    s.turn cfg env .go = r.map fun (c', g', rtn) => { s with
      c := { c' with rbuf := if rtn = 1 then [] else cont }
      g := g'
      executed := s.executed ++ [.line (cText (chopLine (s.c.rbuf.takeWhile (· != LF))))] } := by
  have hneg : negotiate s.c = s.c := by simp [negotiate, ha.protocol, ha.transport]
  have hread : tryReadAscii cfg env s.c s.g = r.map fun (c', g', rtn) =>
      ⟨{ c' with rbuf := if rtn = 1 then [] else cont }, g', false,
        [.line (cText (chopLine (s.c.rbuf.takeWhile (· != LF))))]⟩ := by
    rw [tryReadAscii_line hd, hp]
  rw [turn_parseCmd hst hs]
  simp only [Session.parseTurn, tryReadCommand, hneg, ha.protocol, reduceCtorEq, if_false, hread]
  cases r <;> rfl

variable (env) in
/-- The turn in which a request is parsed. -/
theorem Attends.request_turn {ptr : Nat} {leftCom : Bytes} (ha : Attends s f) (hr : cfg.ramcubeMode = true)
    (hst : s.stop = false) (hs : s.c.state = .parseCmd) (hbuf : f.buf = requestLine ptr ++ CR :: LF :: leftCom)
    (h0 : ∀ x ∈ leftCom, x ≠ 0) : ∃ executed,
    s.turn cfg env .go = (backupRequest env.os f.backup (decimal ptr) leftCom).map fun (b, text) => { s with
      c := { outString { s.c with out := [], dataConnPtr := strtol (decimal ptr) } text with rbuf := [] }
      g := { s.g with backup := b }
      executed := executed } := by
  have hlf : ∀ b ∈ requestLine ptr ++ [CR], (b != LF) = true := by
    intro b hb
    obtain hb | hb := List.mem_append.mp hb
    · simpa using (mem_requestLine hb).2.1
    · rw [List.mem_singleton.mp hb]
      rfl
  have hrbuf : s.c.rbuf = (requestLine ptr ++ [CR]) ++ LF :: leftCom := by
    rw [ha.buf, hbuf, List.append_assoc]
    rfl
  have hdrop : s.c.rbuf.dropWhile (· != LF) = LF :: leftCom := by
    rw [hrbuf, List.dropWhile_append_of_pos hlf, List.dropWhile_cons_of_neg (by simp)]
  have htake : s.c.rbuf.takeWhile (· != LF) = requestLine ptr ++ [CR] := by
    rw [hrbuf, List.takeWhile_append_of_pos hlf, List.takeWhile_cons_of_neg (by simp), List.append_nil]
  have hline : cText (chopLine (s.c.rbuf.takeWhile (· != LF))) = requestLine ptr := by
    have hne : requestLine ptr ≠ [] := by simp [requestLine, decimal_ne_nil]
    have hchop : chopLine (requestLine ptr ++ [CR]) = requestLine ptr := by simp [chopLine, hne]
    rw [htake, hchop, cText_eq fun b hb => (mem_requestLine hb).1]
  have hproc : processCommand cfg env { s.c with out := [] } s.g (cText (chopLine (s.c.rbuf.takeWhile (· != LF))))
      (cText leftCom) = (backupRequest env.os f.backup (decimal ptr) leftCom).map fun (b, text) =>
        (outString { s.c with out := [], dataConnPtr := strtol (decimal ptr) } text, { s.g with backup := b }, 1) := by
    rw [hline, cText_eq h0, ← ha.backup]
    exact processCommand_request hr ha.role
  have hturn := ha.parse_turn hst hs hdrop hproc
  refine ⟨s.executed ++ [.line (cText (chopLine (s.c.rbuf.takeWhile (· != LF))))], hturn.trans ?_⟩
  generalize backupRequest env.os f.backup (decimal ptr) leftCom = r
  cases r <;> rfl

variable (env) in
/-- The turn in which the rest of the end of a line is parsed. -/
theorem Attends.lineEnd_turn {eol more : Bytes} (ha : Attends s f) (hr : cfg.ramcubeMode = true)
    (hst : s.stop = false) (hs : s.c.state = .parseCmd) (hbuf : f.buf = eol ++ more) (he : eol ∈ [[LF], [CR, LF]]) :
    ∃ executed, s.turn cfg env .go = some { s with
      c := { outString { s.c with out := [] } (ascii "ERROR") with rbuf := more }
      executed := executed } := by
  have hrbuf : s.c.rbuf = LF :: more ∨ s.c.rbuf = CR :: LF :: more := by
    rw [ha.buf, hbuf]
    simp only [List.mem_cons, List.not_mem_nil, or_false] at he
    exact he.imp (fun h => by rw [h]; rfl) fun h => by rw [h]; rfl
  have hcr : (CR != LF) = true := rfl
  have hdrop : s.c.rbuf.dropWhile (· != LF) = LF :: more := by
    rcases hrbuf with h | h <;> rw [h] <;> simp [hcr]
  have hcmd : cText (chopLine (s.c.rbuf.takeWhile (· != LF))) = [] ∨
      cText (chopLine (s.c.rbuf.takeWhile (· != LF))) = [CR] := by
    rcases hrbuf with h | h
    · exact .inl (by simp [h, chopLine, cText])
    · have htake : s.c.rbuf.takeWhile (· != LF) = [CR] := by simp [h, hcr]
      exact .inr (by rw [htake]; rfl)
  exact ⟨_, ha.parse_turn hst hs hdrop (processCommand_lineEnd hr hcmd)⟩

/-- Bytes without the end of a line are left where they are. -/
theorem Attends.wait_turn (ha : Attends s f) (hst : s.stop = false) (hs : s.c.state = .parseCmd) (hlf : LF ∉ f.buf)
    (hlen : f.buf.length ≤ 1024) : s.turn cfg env .go = some (s.setState .waiting) := by
  have hneg : negotiate s.c = s.c := by simp [negotiate, ha.protocol, ha.transport]
  have hdrop : s.c.rbuf.dropWhile (· != LF) = [] := by
    rw [ha.buf, List.dropWhile_eq_nil_iff]
    intro b hb
    simpa using show b ≠ LF from fun h => hlf (h ▸ hb)
  have hread : tryReadAscii cfg env s.c s.g = some ⟨s.c, s.g, true, []⟩ := by
    unfold tryReadAscii
    rw [hdrop, ha.buf]
    exact if_neg fun h => Nat.not_lt.mpr hlen h.1
  rw [turn_parseCmd hst hs]
  simp [Session.parseTurn, tryReadCommand, hneg, ha.protocol, hread, Session.setState]

/-! ## Turns keep up with the feed -/

theorem Attends.congr (ha : Attends s f) (hc : s'.c = s.c) (hb : s'.g.backup = s.g.backup) (hsent : s'.sent = s.sent) :
    Attends s' f where
  transport := hc ▸ ha.transport
  protocol := hc ▸ ha.protocol
  role := hc ▸ ha.role
  noreply := hc ▸ ha.noreply
  buf := hc ▸ ha.buf
  backup := hb.trans ha.backup
  phase := by
    have hp := ha.phase
    unfold Phase at hp ⊢
    rw [hc, hsent]
    exact hp

/-- The connection goes to another state. -/
theorem Attends.moves {state : ConnState} {stop : Bool} {nreqs : Int} (ha : Attends s f) (g : Globals)
    (hb : g.backup = s.g.backup) (hp : Phase { s with c := { s.c with state := state } } f) :
    Attends { s with c := { s.c with state := state }, g := g, stop := stop, nreqs := nreqs } f :=
  ⟨ha.transport, ha.protocol, ha.role, ha.noreply, ha.buf, hb.trans ha.backup, hp⟩

theorem outString_eq {c : Conn} (h : c.noreply = false) (str : Bytes) :
    outString c str = { c with out := outLine str, state := .write, writeAndGo := .newCmd } := by
  unfold outString
  rw [h]
  rfl

/-- A line is answered. -/
theorem Attends.answer (ha : Attends s f) (hsent : s.sent = f.said) (dataConnPtr : Int) (text rest : Bytes) (b : Backup)
    (executed : List Executed) (n : Nat) :
    Attends { s with
      c := { outString { s.c with out := [], dataConnPtr := dataConnPtr } text with rbuf := rest }
      g := { s.g with backup := b }
      executed := executed } ⟨rest, b, f.said ++ outLine text, n⟩ := by
  have hno : { s.c with out := [], dataConnPtr := dataConnPtr }.noreply = false := ha.noreply
  rw [outString_eq hno]
  exact ⟨ha.transport, ha.protocol, ha.role, ha.noreply, rfl, rfl, rfl, congrArg (· ++ outLine text) hsent⟩

/-- What a line does to the feed, the machine does. -/
theorem Attends.serves {f' : Feed} (ha : Attends s f) (hr : cfg.ramcubeMode = true) (hst : s.stop = false)
    (hs : s.c.state = .parseCmd) (hl : LineServed env.os f f') :
    ∃ s', s.turn cfg env .go = some s' ∧ s'.stop = false ∧ s'.c.state = .write ∧ Attends s' f' := by
  have hsent : s.sent = f.said := by simpa only [Phase, hs] using ha.phase
  cases hl with
  | @request ptr rsize leftCom said text b b' h0 h =>
    obtain ⟨executed, ht⟩ := ha.request_turn env hr hst hs rfl h0
    rw [show (Feed.mk (requestLine ptr ++ CR :: LF :: leftCom) b said rsize).backup = b from rfl, h] at ht
    refine ⟨_, ht, hst, ?_, ha.answer hsent (strtol (decimal ptr)) text [] b' executed _⟩
    have hno : { s.c with out := [], dataConnPtr := strtol (decimal ptr) }.noreply = false := ha.noreply
    simp only [outString_eq hno]
  | @lineEnd rsize eol more said b he =>
    obtain ⟨executed, ht⟩ := ha.lineEnd_turn env hr hst hs rfl he
    have hb : s.g.backup = b := ha.backup
    have hanswer := ha.answer hsent s.c.dataConnPtr (ascii "ERROR") more b executed (shrunkSize rsize more.length)
    refine ⟨_, ht, hst, ?_, hanswer.congr rfl hb rfl⟩
    have hno : { s.c with out := [] }.noreply = false := ha.noreply
    simp only [outString_eq hno]

theorem Attends.line_turn (ha : Attends s f) (hr : cfg.ramcubeMode = true) (hst : s.stop = false)
    (hs : s.c.state = .parseCmd) (hl : Line f.buf) (ht : s.turn cfg env .go = some s') :
    ∃ f', LineServed env.os f f' ∧ Attends s' f' := by
  obtain ⟨f', hserved⟩ : ∃ f', LineServed env.os f f' := by
    refine hl.served_of_request fun ptr leftCom hbuf h0 => ?_
    obtain ⟨executed, hturn⟩ := ha.request_turn env hr hst hs hbuf h0
    rw [ht] at hturn
    cases h : backupRequest env.os f.backup (decimal ptr) leftCom with
    | none => simp [h] at hturn
    | some r => rfl
  obtain ⟨s'', ht', _, _, ha'⟩ := ha.serves hr hst hs hserved
  obtain rfl := Option.some.inj (ht.symm.trans ht')
  exact ⟨f', hserved, ha'⟩

theorem Attends.waiting_turn {inp : Input} (ha : Attends s f) (hs : s.c.state = .waiting) (hc : inp.calm = true)
    (ht : s.waitingTurn inp = some s') : Attends s' f := by
  have hp : LF ∉ f.buf ∧ s.sent = f.said := by simpa only [Phase, hs] using ha.phase
  cases inp with
  | go =>
    cases ht
    exact ha.moves s.g rfl hp
  | event | wrote _ | again =>
    cases ht
    exact ha
  | data _ | error | noMemory | eventFailed => cases hc

theorem Attends.read_turn {inp : Input} (ha : Attends s f) (hs : s.c.state = .read) (hc : inp.calm = true)
    (ht : s.readTurn inp = some s') : Attends s' f := by
  have hp : LF ∉ f.buf ∧ s.sent = f.said := by simpa only [Phase, hs] using ha.phase
  cases inp with
  | again =>
    cases ht
    exact ha.moves s.clearErange.g rfl hp
  | event | wrote _ | go =>
    cases ht
    exact ha
  | data _ | error | noMemory | eventFailed => cases hc

theorem resetCmdHandler_role (cfg : Settings) (c : Conn) (g : Globals) :
    (resetCmdHandler cfg c g).1.mType = c.mType ∧ (resetCmdHandler cfg c g).1.noreply = c.noreply ∧
      (resetCmdHandler cfg c g).2.backup = g.backup := by
  unfold resetCmdHandler Conn.dropItem
  cases hi : c.item <;> exact ⟨rfl, rfl, rfl⟩

theorem Attends.newCmd_turn {inp : Input} (ha : Attends s f) (hs : s.c.state = .newCmd) (hc : inp.calm = true)
    (ht : s.newCmdTurn cfg inp = some s') : Attends s' f := by
  have hp : s.sent = f.said := by simpa only [Phase, hs] using ha.phase
  cases inp with
  | go =>
    simp only [Session.newCmdTurn] at ht
    split at ht
    · cases ht
      obtain ⟨hbuf, htr, hprot, hstate⟩ := resetCmdHandler_same cfg.toSettings s.c s.g
      obtain ⟨hrole, hno, hb⟩ := resetCmdHandler_role cfg.toSettings s.c s.g
      refine ⟨htr.trans ha.transport, hprot.trans ha.protocol, hrole.trans ha.role, hno.trans ha.noreply,
        hbuf.trans ha.buf, hb.trans ha.backup, ?_⟩
      rcases hstate with hstate | ⟨hstate, hempty⟩
      · simpa [Phase, hstate] using hp
      · have hlf : LF ∉ f.buf := by rw [← ha.buf, hempty]; exact List.not_mem_nil
        simpa [Phase, hstate, hlf] using hp
    · cases ht
      exact ha.congr rfl rfl rfl
  | event | wrote _ | again =>
    cases ht
    exact ha
  | data _ | error | noMemory | eventFailed => cases hc

theorem Attends.write_turn {inp : Input} (ha : Attends s f) (hs : s.c.state = .write) (hc : inp.calm = true)
    (ht : s.writeTurn cfg inp = some s') : Attends s' f := by
  have hp : s.c.writeAndGo = .newCmd ∧ s.sent ++ s.c.out = f.said := by simpa only [Phase, hs] using ha.phase
  cases inp with
  | go =>
    simp only [Session.writeTurn] at ht
    split at ht
    · rename_i ho
      cases ht
      have hdone : s.transmitComplete cfg = { s with c := { s.c with state := .newCmd } } := by
        simp [Session.transmitComplete, hs, Session.setState, hp.1]
      rw [hdone]
      exact ha.moves s.g rfl (by simpa [Phase, ho] using hp.2)
    · cases ht
      exact ha
  | wrote n =>
    simp only [Session.writeTurn] at ht
    split at ht
    · cases ht
      exact ha
    · cases ht
      refine ⟨ha.transport, ha.protocol, ha.role, ha.noreply, ha.buf, ha.backup, ?_⟩
      simp only [Phase, hs, List.append_assoc, List.take_append_drop]
      exact hp
  | again =>
    simp only [Session.writeTurn] at ht
    split at ht
    · cases ht
      exact ha
    · cases ht
      exact ha.congr rfl rfl rfl
  | event =>
    cases ht
    exact ha
  | data _ | error | noMemory | eventFailed => cases hc

/-- The turn handles a line of the feed. -/
abbrev LineTurn (s : Session) (inp : Input) (f : Feed) : Prop :=
  s.stop = false ∧ s.c.state = .parseCmd ∧ inp = .go ∧ LF ∈ f.buf

/-- Any other turn leaves the feed as it is. -/
theorem Attends.other_turn {inp : Input} (ha : Attends s f) (hlen : LF ∉ f.buf → f.buf.length ≤ 1024)
    (hother : ¬LineTurn s inp f) (hc : inp.calm = true) (ht : s.turn cfg env inp = some s') : Attends s' f := by
  cases hst : s.stop with
  | true =>
    unfold Session.turn at ht
    rw [hst, if_pos rfl] at ht
    cases inp with
    | event | go | wrote _ | again =>
      cases ht
      exact ha.congr rfl rfl rfl
    | data _ | error | noMemory | eventFailed => cases hc
  | false =>
    have hphase := ha.phase
    unfold Phase at hphase
    unfold Session.turn at ht
    rw [hst, if_neg (by simp)] at ht
    cases hs : s.c.state with
    | waiting =>
      rw [hs] at ht
      exact ha.waiting_turn hs hc ht
    | read =>
      rw [hs] at ht
      exact ha.read_turn hs hc ht
    | newCmd =>
      rw [hs] at ht
      exact ha.newCmd_turn hs hc ht
    | write =>
      rw [hs] at ht
      exact ha.write_turn hs hc ht
    | parseCmd =>
      rw [hs] at ht
      have hp : s.sent = f.said := by simpa only [hs] using hphase
      cases inp with
      | go =>
        have hlf : LF ∉ f.buf := fun hlf => hother ⟨hst, hs, rfl, hlf⟩
        have hw : s.turn cfg env .go = some (s.setState .waiting) := ha.wait_turn hst hs hlf (hlen hlf)
        obtain rfl := Option.some.inj (((turn_parseCmd hst hs).trans ht).symm.trans hw)
        exact ha.moves s.g rfl ⟨hlf, hp⟩
      | event | wrote _ | again =>
        cases ht
        exact ha
      | data _ | error | noMemory | eventFailed => cases hc
    | nread | swallow | closing | mwrite | closed => simp [hs] at hphase

theorem Attends.turn_isSome {inp : Input} (ha : Attends s f) (hr : cfg.ramcubeMode = true)
    (hlen : LF ∉ f.buf → f.buf.length ≤ 1024) (hl : LF ∈ f.buf → ∃ f', LineServed env.os f f') (hc : inp.calm = true) :
    (s.turn cfg env inp).isSome := by
  have hphase := ha.phase
  unfold Phase at hphase
  by_cases hparse : s.stop = false ∧ s.c.state = .parseCmd ∧ inp = .go
  · obtain ⟨hst, hs, rfl⟩ := hparse
    by_cases hlf : LF ∈ f.buf
    · obtain ⟨f', hserved⟩ := hl hlf
      obtain ⟨s', ht, _⟩ := ha.serves hr hst hs hserved
      rw [ht]
      rfl
    · rw [ha.wait_turn hst hs hlf (hlen hlf)]
      rfl
  · unfold Session.turn
    cases hst : s.stop with
    | true => cases inp <;> rfl
    | false =>
      simp only [hst, true_and, not_and] at hparse
      simp only [Bool.false_eq_true, if_false]
      cases hs : s.c.state with
      | parseCmd =>
        cases inp with
        | go => exact absurd rfl (hparse hs)
        | event | wrote _ | again => rfl
        | data _ | error | noMemory | eventFailed => cases hc
      | waiting => cases inp <;> rfl
      | read =>
        cases inp with
        | go | event | wrote _ | again => rfl
        | data _ | error | noMemory | eventFailed => cases hc
      | newCmd =>
        simp only [Session.newCmdTurn]
        cases inp with
        | go => by_cases hn : 1 ≤ s.nreqs <;> simp [hn]
        | event | wrote _ | again => rfl
        | data _ | error | noMemory | eventFailed => cases hc
      | write =>
        simp only [Session.writeTurn]
        cases inp with
        | go | again => by_cases ho : s.c.out = [] <;> simp [ho]
        | wrote n => by_cases hn : s.c.out.length < n <;> simp [hn]
        | event => rfl
        | data _ | error | noMemory | eventFailed => cases hc
      | nread | swallow | closing | mwrite | closed => simp [hs] at hphase

end

/-! ## The size of the buffer -/

/-- `rsize` when more is read. -/
def BackupConn.nextSize (k : BackupConn) : Nat :=
  if k.s.c.state = .write ∨ k.s.c.state = .newCmd then shrunkSize k.rsize k.s.c.rbuf.length else k.rsize

/-- The connection of a primary, and what it has of the stream. -/
structure Tracks (k : BackupConn) (f : Feed) : Prop extends Attends k.s f where
  size : k.nextSize = f.rsize

section

variable {cfg : Config} {env : Env} {k k' : BackupConn} {s' : Session} {f f' : Feed} {inp : Input}

theorem not_lineTurn {s : Session} (h : s.c.state ≠ .parseCmd) : ¬LineTurn s inp f := fun hl => h hl.2.1

theorem sizeAfter_state (h : k.s.c.state ≠ .newCmd) : k.sizeAfter inp = k.rsize := if_neg fun hn => h hn.2.1

theorem sizeAfter_input (h : inp ≠ .go) : k.sizeAfter inp = k.rsize := if_neg fun hn => h hn.2.2.1

theorem nextSize_state (h : k.s.c.state = .waiting ∨ k.s.c.state = .read ∨ k.s.c.state = .parseCmd) :
    k.nextSize = k.rsize := by
  refine if_neg ?_
  obtain h | h | h := h <;> rw [h] <;> exact nofun

/-- In a turn that handles no line the buffer is given back only when a command was answered. -/
theorem Attends.other_size (ha : Attends k.s f) (ha' : Attends s' f) (hother : ¬LineTurn k.s inp f) (hlen : LF ∉ f.buf → f.buf.length ≤ 1024)
    (hc : inp.calm = true) (ht : k.s.turn cfg env inp = some s') : (BackupConn.mk s' (k.sizeAfter inp)).nextSize = k.nextSize := by
  have hbuf : s'.c.rbuf = k.s.c.rbuf := ha'.buf.trans ha.buf.symm
  have hkeep : (s'.c.state = .write ∨ s'.c.state = .newCmd ↔ k.s.c.state = .write ∨ k.s.c.state = .newCmd) →
      k.sizeAfter inp = k.rsize → (BackupConn.mk s' (k.sizeAfter inp)).nextSize = k.nextSize := by
    intro hstate hsize
    simp only [BackupConn.nextSize, hstate, hsize, hbuf]
  cases hst : k.s.stop with
  | true =>
    refine hkeep ?_ (if_neg fun hn => by simp [hst] at hn)
    unfold Session.turn at ht
    rw [hst, if_pos rfl] at ht
    cases inp <;> cases ht <;> exact Iff.rfl
  | false =>
    have hphase := ha.phase
    unfold Phase at hphase
    have hturn := ht
    unfold Session.turn at ht
    rw [hst, if_neg (by simp)] at ht
    cases hs : k.s.c.state with
    | waiting =>
      refine hkeep ?_ (sizeAfter_state (by simp [hs]))
      rw [hs] at ht
      cases inp <;> cases ht <;> simp [Session.setState, hs]
    | read =>
      refine hkeep ?_ (sizeAfter_state (by simp [hs]))
      rw [hs] at ht
      cases inp with
      | go | event | wrote _ | again =>
        cases ht
        simp [Session.setState, hs]
      | data _ | error | noMemory | eventFailed => cases hc
    | parseCmd =>
      refine hkeep ?_ (sizeAfter_state (by simp [hs]))
      cases inp with
      | go =>
        have hlf : LF ∉ f.buf := fun hlf => hother ⟨hst, hs, rfl, hlf⟩
        obtain rfl := Option.some.inj (hturn.symm.trans (ha.wait_turn hst hs hlf (hlen hlf)))
        simp [Session.setState, hs]
      | event | wrote _ | again =>
        rw [hs] at ht
        cases ht
        exact Iff.rfl
      | data _ | error | noMemory | eventFailed => cases hc
    | write =>
      refine hkeep ?_ (sizeAfter_state (by simp [hs]))
      rw [hs] at ht hphase
      have hgo : k.s.c.writeAndGo = .newCmd := hphase.1
      cases inp with
      | go =>
        simp only [Session.writeTurn] at ht
        split at ht <;> cases ht <;> simp [Session.transmitComplete, Session.setState, hs, hgo]
      | wrote n =>
        simp only [Session.writeTurn] at ht
        split at ht <;> cases ht <;> simp [hs]
      | again =>
        simp only [Session.writeTurn] at ht
        split at ht <;> cases ht <;> exact or_congr Iff.rfl Iff.rfl
      | event =>
        cases ht
        simp [hs]
      | data _ | error | noMemory | eventFailed => cases hc
    | newCmd =>
      rw [hs] at ht
      cases inp with
      | go =>
        simp only [Session.newCmdTurn] at ht
        split at ht
        · rename_i hreqs
          cases ht
          have hsize : k.sizeAfter .go = shrunkSize k.rsize k.s.c.rbuf.length := if_pos ⟨hst, hs, rfl, by omega⟩
          have hnext : k.nextSize = shrunkSize k.rsize k.s.c.rbuf.length := if_pos (.inr hs)
          rw [hnext, ← hsize]
          refine nextSize_state ?_
          obtain hstate | ⟨hstate, -⟩ := (resetCmdHandler_same cfg.toSettings k.s.c k.s.g).2.2.2
          · exact .inr (.inr hstate)
          · exact .inl hstate
        · rename_i hreqs
          cases ht
          exact hkeep Iff.rfl (if_neg fun hn => hreqs (by omega))
      | event | wrote _ | again =>
        cases ht
        exact hkeep Iff.rfl (sizeAfter_input (by simp))
      | data _ | error | noMemory | eventFailed => cases hc
    | nread | swallow | closing | mwrite | closed => simp [hs] at hphase

theorem Tracks.other (hk : Tracks k f) (hlen : LF ∉ f.buf → f.buf.length ≤ 1024) (hother : ¬LineTurn k.s inp f)
    (hc : inp.calm = true) (ht : k.s.turn cfg env inp = some s') : Tracks ⟨s', k.sizeAfter inp⟩ f := by
  have ha' := hk.other_turn hlen hother hc ht
  exact ⟨ha', (hk.other_size ha' hother hlen hc ht).trans hk.size⟩

theorem LineServed.rsize {os : Os} (h : LineServed os f f') : f'.rsize = shrunkSize f.rsize f'.buf.length := by
  cases h <;> rfl

/-- What a line does to the feed, the connection does. -/
theorem Tracks.serves (hk : Tracks k f) (hr : cfg.ramcubeMode = true) (hst : k.s.stop = false)
    (hs : k.s.c.state = .parseCmd) (hl : LineServed env.os f f') :
    ∃ s', k.s.turn cfg env .go = some s' ∧ Tracks ⟨s', k.sizeAfter .go⟩ f' := by
  obtain ⟨s', ht, _, hstate, ha'⟩ := hk.toAttends.serves hr hst hs hl
  refine ⟨s', ht, ha', ?_⟩
  have hnext : (BackupConn.mk s' (k.sizeAfter .go)).nextSize = shrunkSize (k.sizeAfter .go) s'.c.rbuf.length := if_pos (.inl hstate)
  rw [hnext, sizeAfter_state (by simp [hs]), ha'.buf, hl.rsize, ← hk.size, nextSize_state (.inr (.inr hs))]

/-- Either nothing is done to the feed, or a line of it is handled. -/
theorem Tracks.turn (hk : Tracks k f) (hr : cfg.ramcubeMode = true) (hlen : LF ∉ f.buf → f.buf.length ≤ 1024)
    (hl : LF ∈ f.buf → Line f.buf) (hc : inp.calm = true) (ht : k.s.turn cfg env inp = some s') :
    Tracks ⟨s', k.sizeAfter inp⟩ f ∨ ∃ f', LineServed env.os f f' ∧ Tracks ⟨s', k.sizeAfter inp⟩ f' := by
  by_cases hline : LineTurn k.s inp f
  · obtain ⟨hst, hs, rfl, hlf⟩ := hline
    obtain ⟨f', hserved, -⟩ := hk.line_turn hr hst hs (hl hlf) ht
    obtain ⟨s'', ht', hk'⟩ := hk.serves hr hst hs hserved
    obtain rfl := Option.some.inj (ht.symm.trans ht')
    exact .inr ⟨f', hserved, hk'⟩
  · exact .inl (hk.other hlen hline hc ht)

variable (cfg) in
/-- What a call of `try_read_network` leaves behind the rest of the buffer. -/
theorem Attends.data_turn {got : Bytes} (ha : Attends s f) (hs : s.c.state = .read) (hst : s.stop = false) (hgot : got ≠ []) :
    s.turn cfg default (.data got) = some { s with c := tryReadNetwork s.c got, input := s.input ++ got } := by
  simp [Session.turn, hst, hs, Session.readTurn, ha.transport, hgot]

variable (cfg) in
theorem Tracks.data {got : Bytes} (hk : Tracks k f) (hs : k.s.c.state = .read) (hst : k.s.stop = false) (hgot : got ≠ []) (n : Nat) :
    ∃ s', k.s.turn cfg default (.data got) = some s' ∧ Tracks ⟨s', n⟩ { f with buf := f.buf ++ got, rsize := n } := by
  have hp : LF ∉ f.buf ∧ k.s.sent = f.said := by simpa only [Phase, hs] using hk.phase
  exact ⟨_, hk.data_turn cfg hs hst hgot,
    ⟨hk.transport, hk.protocol, hk.role, hk.noreply, congrArg (· ++ got) hk.buf, hk.backup, hp.2⟩, rfl⟩

end

/-! ## Runs -/

/-- What is kept about a feed and the reads to come, whatever the machine does. -/
structure FeedInv (I : Feed → List ReadResult → Prop) : Prop where
  short : ∀ {f rest}, I f rest → LF ∉ f.buf → f.buf.length ≤ 1024
  line : ∀ {f rest}, I f rest → LF ∈ f.buf → Line f.buf
  served : ∀ {f f' rest os}, I f rest → LineServed os f f' → I f' rest
  read : ∀ {f rest got n more}, I f rest → LF ∉ f.buf → got ≠ [] →
    networkCall 4 f.rsize f.buf.length rest = some (got, n, more) → I { f with buf := f.buf ++ got, rsize := n } more

section

variable {cfg : Config} {k k' : BackupConn} {f : Feed} {I : Feed → List ReadResult → Prop}

theorem Tracks.happens {e : BackupEvent} {rest : List ReadResult} (hI : FeedInv I) (hr : cfg.ramcubeMode = true)
    (hk : Tracks k f) (h : I f (readsOf [e] ++ rest)) (he : BackupHappens cfg k e k') :
    ∃ f', Tracks k' f' ∧ I f' rest := by
  obtain ⟨s', n⟩ := k'
  cases e with
  | turn env inp =>
    obtain ⟨hc, ht, rfl⟩ := he
    rcases hk.turn hr (hI.short h) (hI.line h) hc ht with hk' | ⟨f', hserved, hk'⟩
    · exact ⟨f, hk', h⟩
    · exact ⟨f', hk', hI.served h hserved⟩
  | read results =>
    obtain ⟨⟨hst, hs⟩, got, hgot, hcall, ht⟩ := he
    obtain ⟨s'', ht', hk'⟩ := hk.data cfg hs hst hgot n
    obtain rfl := Option.some.inj (ht.symm.trans ht')
    have hp : LF ∉ f.buf ∧ k.s.sent = f.said := by simpa only [Phase, hs] using hk.phase
    have hsize : k.rsize = f.rsize := (nextSize_state (.inr (.inl hs))).symm.trans hk.size
    rw [hsize, hk.buf] at hcall
    have hreads : readsOf [.read results] = results := by simp [readsOf]
    rw [hreads] at h
    exact ⟨_, hk', hI.read h hp.1 hgot (networkCall_append hcall rest)⟩
  | others g =>
    obtain ⟨hb, hk'⟩ := he
    obtain ⟨rfl, rfl⟩ : s' = { k.s with g := g } ∧ n = k.rsize := by simpa using hk'
    exact ⟨f, ⟨hk.congr rfl hb rfl, hk.size⟩, h⟩

theorem readsOf_cons (e : BackupEvent) (es : List BackupEvent) : readsOf (e :: es) = readsOf [e] ++ readsOf es := by
  simp [readsOf]

theorem Tracks.run {es : List BackupEvent} {rest : List ReadResult} (hI : FeedInv I) (hr : cfg.ramcubeMode = true)
    (hk : Tracks k f) (h : I f (readsOf es ++ rest)) (hrun : Run (BackupHappens cfg) k es k') :
    ∃ f', Tracks k' f' ∧ I f' rest := by
  induction hrun generalizing f with
  | nil => exact ⟨f, hk, h⟩
  | @cons s t u e es hs _ ih =>
    rw [readsOf_cons, List.append_assoc] at h
    obtain ⟨f', hk', h'⟩ := hk.happens hI hr h hs
    exact ih hk' h'

end

/-! ## The whole stream can be read -/

/-- Some run with these reads gets to a state with the property. -/
def Goes (cfg : Config) (P : BackupConn → Prop) (k : BackupConn) (reads : List ReadResult) : Prop :=
  ∃ es k', Run (BackupHappens cfg) k es k' ∧ readsOf es = reads ∧ P k'

section

variable {cfg : Config} {P : BackupConn → Prop} {k k' : BackupConn} {s' : Session} {f : Feed} {reads : List ReadResult}

theorem Goes.here (h : P k) : Goes cfg P k [] := ⟨[], k, .nil k, rfl, h⟩

theorem Goes.turn (env : Env) {inp : Input} (hc : inp.calm = true) (ht : k.s.turn cfg env inp = some s')
    (h : Goes cfg P ⟨s', k.sizeAfter inp⟩ reads) : Goes cfg P k reads := by
  obtain ⟨es, u, hr, hreads, hp⟩ := h
  have hstep : BackupHappens cfg k (.turn env inp) ⟨s', k.sizeAfter inp⟩ := ⟨hc, ht, rfl⟩
  exact ⟨.turn env inp :: es, u, .cons hstep hr, hreads, hp⟩

theorem Goes.read {results : List ReadResult} {got : Bytes} {n : Nat} (hst : k.s.stop = false) (hs : k.s.c.state = .read)
    (hgot : got ≠ []) (hcall : networkCall 4 k.rsize k.s.c.rbuf.length results = some (got, n, []))
    (ht : k.s.turn cfg default (.data got) = some s') (h : Goes cfg P ⟨s', n⟩ reads) : Goes cfg P k (results ++ reads) := by
  obtain ⟨es, u, hr, hreads, hp⟩ := h
  have hstep : BackupHappens cfg k (.read results) ⟨s', n⟩ := ⟨⟨hst, hs⟩, got, hgot, hcall, ht⟩
  exact ⟨.read results :: es, u, .cons hstep hr, congrArg (results ++ ·) hreads, hp⟩

/-- A machine that has returned is called again. -/
theorem Goes.awake (h : ∀ j, Goes cfg P ⟨k.s.awake j, k.rsize⟩ reads) : Goes cfg P k reads := by
  cases hst : k.s.stop with
  | true => exact .turn default rfl (turn_event hst) (@sizeAfter_input k .event (by simp) ▸ h cfg.reqsPerEvent)
  | false =>
    have heq : BackupConn.mk (k.s.awake k.s.nreqs) k.rsize = k := by simp [Session.awake, ← hst]
    rw [← heq]
    exact h k.s.nreqs

theorem Tracks.awake (hk : Tracks k f) (j : Int) : Tracks ⟨k.s.awake j, k.rsize⟩ f := ⟨hk.congr rfl rfl rfl, hk.size⟩

/-- The machine waits for a read, or it is about to handle a line. -/
structure Rests (f : Feed) (k : BackupConn) : Prop where
  tracks : Tracks k f
  running : k.s.stop = false
  state : k.s.c.state = .read ∧ LF ∉ f.buf ∨ k.s.c.state = .parseCmd ∧ LF ∈ f.buf

theorem goes_read (hk : Tracks k f) (hs : k.s.c.state = .read) : Goes cfg (Rests f) k [] := by
  have hp : LF ∉ f.buf ∧ k.s.sent = f.said := by simpa only [Phase, hs] using hk.phase
  exact .awake fun j => .here ⟨hk.awake j, rfl, .inl ⟨hs, hp.1⟩⟩

section

variable (hlen : LF ∉ f.buf → f.buf.length ≤ 1024)
include hlen

/-- A turn that handles no line. -/
theorem Tracks.goes_other {inp : Input} (hk : Tracks k f) (hother : ¬LineTurn k.s inp f) (hc : inp.calm = true)
    (ht : k.s.turn cfg default inp = some s') (h : Tracks ⟨s', k.sizeAfter inp⟩ f → Goes cfg P ⟨s', k.sizeAfter inp⟩ reads) :
    Goes cfg P k reads :=
  .turn default hc ht (h (hk.other hlen hother hc ht))

theorem goes_waiting (hk : Tracks k f) (hs : k.s.c.state = .waiting) : Goes cfg (Rests f) k [] := by
  refine .awake fun j => ?_
  have ht : (k.s.awake j).turn cfg default .go = some { (k.s.awake j).setState .read with stop := true } := by
    simp [Session.turn, Session.awake, hs, Session.waitingTurn]
  exact (hk.awake j).goes_other hlen (not_lineTurn (hs.trans_ne (by simp))) rfl ht fun hk' => goes_read hk' rfl

theorem goes_parse (hk : Tracks k f) (hs : k.s.c.state = .parseCmd) : Goes cfg (Rests f) k [] := by
  refine .awake fun j => ?_
  by_cases hlf : LF ∈ f.buf
  · exact .here ⟨hk.awake j, rfl, .inr ⟨hs, hlf⟩⟩
  · have hk' := hk.awake j
    exact hk'.goes_other hlen (fun h => hlf h.2.2.2) rfl (hk'.wait_turn rfl hs hlf (hlen hlf)) fun hk' => goes_waiting hlen hk' rfl

variable (hreq : 0 < cfg.reqsPerEvent)
include hreq

theorem goes_newCmd (hk : Tracks k f) (hs : k.s.c.state = .newCmd) : Goes cfg (Rests f) k [] := by
  have hgo : ∀ j n, 0 < j → n = k.rsize → Goes cfg (Rests f) ⟨k.s.awake j, n⟩ [] := by
    rintro j _ hj rfl
    have hj' : 1 ≤ j := hj
    have ht : (k.s.awake j).turn cfg default .go = some { k.s.awake (j - 1) with
        c := (resetCmdHandler cfg.toSettings k.s.c k.s.g).1
        g := (resetCmdHandler cfg.toSettings k.s.c k.s.g).2 } := by
      simp [Session.turn, Session.awake, hs, Session.newCmdTurn, hj']
    refine (hk.awake j).goes_other hlen (not_lineTurn (hs.trans_ne (by simp))) rfl ht fun hk' => ?_
    rcases (resetCmdHandler_same cfg.toSettings k.s.c k.s.g).2.2.2 with hstate | ⟨hstate, _⟩
    · exact goes_parse hlen hk' hstate
    · exact goes_waiting hlen hk' hstate
  refine .awake fun j => ?_
  by_cases hj : 0 < j
  · exact hgo j k.rsize hj rfl
  · -- the turn yields, and the next call starts with a full count
    have hj' : j < 1 := by omega
    have hyield : (k.s.awake j).turn cfg default .go = some { k.s with stop := true, nreqs := j - 1 } := by
      simp [Session.turn, Session.awake, hs, Session.newCmdTurn, Int.not_le.mpr hj']
    have hcall : { k.s with stop := true, nreqs := j - 1 }.turn cfg default .event = some (k.s.awake cfg.reqsPerEvent) :=
      turn_event rfl
    have hsize : (BackupConn.mk (k.s.awake j) k.rsize).sizeAfter .go = k.rsize := if_neg fun h => hj h.2.2.2
    rw [← hsize] at hgo
    exact .turn default rfl hyield (.turn default rfl hcall (hgo cfg.reqsPerEvent _ hreq (sizeAfter_input (by simp))))

theorem goes_write (hk : Tracks k f) (hs : k.s.c.state = .write) : Goes cfg (Rests f) k [] := by
  have hp : k.s.c.writeAndGo = .newCmd ∧ k.s.sent ++ k.s.c.out = f.said := by simpa only [Phase, hs] using hk.phase
  refine .awake fun j => ?_
  have hsent : (k.s.awake j).turn cfg default (.wrote k.s.c.out.length) = some
      { k.s.awake j with c := { k.s.c with out := [] }, sent := k.s.sent ++ k.s.c.out } := by
    simp [Session.turn, Session.awake, hs, Session.writeTurn]
  refine (hk.awake j).goes_other hlen (not_lineTurn (hs.trans_ne (by simp))) rfl hsent fun hk' => ?_
  have hdone : { k.s.awake j with c := { k.s.c with out := [] }, sent := k.s.sent ++ k.s.c.out }.turn cfg default .go = some
      { k.s.awake j with c := { k.s.c with out := [], state := .newCmd }, sent := k.s.sent ++ k.s.c.out } := by
    simp [Session.turn, Session.awake, hs, Session.writeTurn, Session.transmitComplete, Session.setState, hp.1]
  exact hk'.goes_other hlen (not_lineTurn (hs.trans_ne (by simp))) rfl hdone fun hk'' => goes_newCmd hlen hreq hk'' rfl

theorem Tracks.goes (hk : Tracks k f) : Goes cfg (Rests f) k [] := by
  have hphase := hk.phase
  unfold Phase at hphase
  cases hs : k.s.c.state with
  | waiting => exact goes_waiting hlen hk hs
  | read => exact goes_read hk hs
  | newCmd => exact goes_newCmd hlen hreq hk hs
  | parseCmd => exact goes_parse hlen hk hs
  | write => exact goes_write hlen hreq hk hs
  | nread | swallow | closing | mwrite | closed => simp [hs] at hphase

end

theorem Goes.trans {Q : BackupConn → Prop} {reads' : List ReadResult} (h : Goes cfg P k reads)
    (h' : ∀ k', P k' → Goes cfg Q k' reads') : Goes cfg Q k (reads ++ reads') := by
  obtain ⟨es, t, hr, hreads, hp⟩ := h
  obtain ⟨es', u, hr', hreads', hq⟩ := h' t hp
  refine ⟨es ++ es', u, hr.append hr', ?_, hq⟩
  rw [← hreads, ← hreads']
  exact List.flatMap_append

/-- The first part reads nothing. -/
theorem Goes.first {Q : BackupConn → Prop} (h : Goes cfg P k []) (h' : ∀ k', P k' → Goes cfg Q k' reads) :
    Goes cfg Q k reads :=
  h.trans h'

theorem LineServed.length_lt {os : Os} {f' : Feed} (h : LineServed os f f') : f'.buf.length < f.buf.length := by
  cases h with
  | request => simp
  | @lineEnd rsize eol more said b he =>
    have hne : eol ≠ [] := by
      rintro rfl
      simp at he
    have hpos := List.length_pos_iff.mpr hne
    simp only [List.length_append]
    omega

/-- The machine has handled all lines and waits for a read. -/
structure ReadsNext (I : Feed → List ReadResult → Prop) (rest : List ReadResult) (k : BackupConn) (f : Feed) : Prop where
  tracks : Tracks k f
  inv : I f rest
  running : k.s.stop = false
  state : k.s.c.state = .read
  noLine : LF ∉ f.buf

section

variable {I : Feed → List ReadResult → Prop} (hI : FeedInv I) (hr : cfg.ramcubeMode = true) (hreq : 0 < cfg.reqsPerEvent)
  (hserves : ∀ f rest, I f rest → LF ∈ f.buf → ∃ f', LineServed (default : Env).os f f')
include hI hr hreq hserves

theorem Tracks.lines (hk : Tracks k f) (h : I f reads) : Goes cfg (fun k' => ∃ f', ReadsNext I reads k' f') k [] := by
  induction hn : f.buf.length using Nat.strong_induction_on generalizing k f with
  | _ n ih =>
    refine Goes.first (hk.goes (hI.short h) hreq) fun t ⟨hk', hst, hstate⟩ => ?_
    rcases hstate with ⟨hs, hlf⟩ | ⟨hs, hlf⟩
    · exact .here ⟨f, hk', h, hst, hs, hlf⟩
    · obtain ⟨f', hserved⟩ := hserves f reads h hlf
      obtain ⟨t', ht, hk''⟩ := hk'.serves hr hst hs hserved
      exact .turn default rfl ht (ih _ (hn ▸ hserved.length_lt) hk'' (hI.served h hserved) rfl)

/-- What is kept about a feed leads to the end of the reads to come, if lines can be handled
and there is a call for every read. -/
theorem Tracks.goes_reads (hcalls : ∀ f rest, I f rest → LF ∉ f.buf → rest ≠ [] → ∃ got ≠ [], ∃ n more,
      networkCall 4 f.rsize f.buf.length rest = some (got, n, more)) (hk : Tracks k f) (h : I f reads) :
    Goes cfg (fun k' => ∃ f', ReadsNext I [] k' f') k reads := by
  induction hlen : reads.length using Nat.strong_induction_on generalizing k f reads with
  | _ m ih =>
    refine Goes.first (hk.lines hI hr hreq hserves h) fun t ⟨f', hnext⟩ => ?_
    by_cases hnil : reads = []
    · subst hnil
      exact .here ⟨f', hnext⟩
    · obtain ⟨got, hgot, n, more, hcall⟩ := hcalls f' reads hnext.inv hnext.noLine hnil
      obtain ⟨taken, rfl, htaken, hdata⟩ := networkCall_takes hcall
      have htaken' : taken ≠ [] := fun hnil => hgot (hdata.symm.trans (by rw [hnil]; rfl))
      have hsize : t.rsize = f'.rsize := (nextSize_state (.inr (.inl hnext.state))).symm.trans hnext.tracks.size
      obtain ⟨t', ht, hk'⟩ := hnext.tracks.data cfg hnext.state hnext.running hgot n
      rw [← hsize, ← hnext.tracks.buf] at htaken
      have hpos := List.length_pos_iff.mpr htaken'
      rw [List.length_append] at hlen
      exact .read hnext.running hnext.state hgot htaken ht
        (ih more.length (by omega) hk' (hI.read hnext.inv hnext.noLine hgot hcall) rfl)

end

end

end RamCube
