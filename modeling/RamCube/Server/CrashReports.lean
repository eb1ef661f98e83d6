import RamCube.Backup.HeartBeat
import RamCube.Backup.Neighbors
import RamCube.Backup.Recovery
import RamCube.Server.BackupReplies

/-! # Reports of a crash (ramcube.c)

The recovery node writes CRASH with the address of a primary to the coordinator, and the
coordinator writes CRASHED with this address and that of the recovery node to the backup.
Both are taken apart word by word, behind the first line feed of what was read. A message
that is read alone keeps its addresses on the whole way (`crash_round_trip`). -/
namespace RamCube

/-! ## The branches of ramcube_process_commands -/

/-- The backup that a coordinator writes to. -/
def backupIp : Bytes := ascii "10.107.19.9"

def backupPort : Nat := 11114

/-- The message of a coordinator to the backup; `peerSin` is the recovery node. -/
def crashedText (ip : Bytes) (port : Int) (peerSin : SockaddrIn) : Bytes :=
  ascii "CRASHED\n\r" ++ ip ++ colon :: decimalInt port ++ space :: inetNtoa peerSin.sin_addr ++
    colon :: decimal peerSin.sin_port.toNat

/-- The place of the backup in `vpCoordinatorOut`. -/
def RamcubeNode.backupOut (n : RamcubeNode) : Option Nat :=
  (n.vpOut .COORDINATOR).findIdx? fun sin => inetNtoa sin.sin_addr == backupIp && sin.sin_port.toNat == backupPort

/-- The CRASH branch, on a connection with the peer `peerSin`: what is written, and to
which of `vpCoordinatorOut`, if the backup is there. -/
def RamcubeNode.crash (n : RamcubeNode) (peerSin : SockaddrIn) (leftCom : Bytes) : Option (Option (Nat × Bytes)) :=
  match tokens isDelim leftCom with
  | [] => none
  | ip :: words =>
    let port := words.foldl (fun _ p => atoi p) 0
    if ip.length < 16 then some (n.backupOut.map fun i => (i, crashedText ip port peerSin)) else none

/-! ## A message that is read alone -/

/-- `try_read_command` finds a line: the command in it, and the text behind it. -/
def readLine (rbuf : Bytes) : Option (Bytes × Bytes) :=
  match rbuf.dropWhile (· != LF) with
  | [] => none
  | _ :: cont => some (cText (chopLine (rbuf.takeWhile (· != LF))), cText cont)

/-- What `process_command` is given next on a connection. -/
def Session.heard (s : Session) : Option (Bytes × Bytes) :=
  if (negotiate s.c).protocol = .binary then none else readLine s.c.rbuf

/-- The connection is read from, and nothing is left of earlier messages. -/
structure Session.Listens (s : Session) : Prop where
  running : s.stop = false
  state : s.c.state = .read
  transport : s.c.transport = .tcp
  protocol : s.c.protocol ≠ .binary
  empty : s.c.rbuf = []

theorem length_inetNtoa (a : InAddr) : (inetNtoa a).length < 16 := by
  have hpart : ∀ b : UInt8, (decimal b.toNat).length ≤ 3 := fun b =>
    length_decimal_le (by omega) (Nat.lt_of_lt_of_le b.toNat_lt (by omega))
  have h1 := hpart a.b1
  have h2 := hpart a.b2
  have h3 := hpart a.b3
  have h4 := hpart a.b4
  simp only [inetNtoa, List.length_append, List.length_cons]
  omega

/-- The address of a peer, as it is printed. -/
def SockaddrIn.address (a : SockaddrIn) (h : a.sin_port ≠ 0) : Address where
  ip := inetNtoa a.sin_addr
  port := a.sin_port.toNat
  ip_ok _ hb := mem_inetNtoa hb
  ip_ne := inetNtoa_ne_nil _
  ip_length := length_inetNtoa _
  port_pos := Nat.pos_of_ne_zero fun h0 => h (UInt16.toNat_inj.mp h0)
  port_lt := a.sin_port.toNat_lt

variable {cfg : Config} {env : Env} {s : Session} {command leftCom msg : Bytes}

/-- A line that was heard is the one that is processed. -/
theorem Session.heard_turn (hst : s.stop = false) (hs : s.c.state = .parseCmd) (hh : s.heard = some (command, leftCom)) :
    s.turn cfg env .go =
      (processCommand cfg env { negotiate s.c with out := [] } s.g command leftCom).map fun (c, g, rtn) => { s with
        c := { c with rbuf := if rtn = 1 then [] else (s.c.rbuf.dropWhile (· != LF)).drop 1 }
        g := g
        executed := s.executed ++ [.line command] } := by
  unfold Session.heard at hh
  have hascii : (negotiate s.c).protocol ≠ .binary := fun h => by simp [h] at hh
  rw [if_neg hascii, readLine] at hh
  have hrbuf : (negotiate s.c).rbuf = s.c.rbuf := by
    unfold negotiate
    split <;> rfl
  cases hd : s.c.rbuf.dropWhile (· != LF) with
  | nil => simp [hd] at hh
  | cons lf cont =>
    have hlf : lf = LF := by
      have hhead := List.head_dropWhile_not (· != LF) (by rw [hd]; exact List.cons_ne_nil _ _)
      simpa [hd] using hhead
    subst hlf
    simp only [hd, Option.some.injEq, Prod.mk.injEq] at hh
    obtain ⟨rfl, rfl⟩ := hh
    have hd' : (negotiate s.c).rbuf.dropWhile (· != LF) = LF :: cont := by rw [hrbuf, hd]
    have hline : (negotiate s.c).rbuf.takeWhile (· != LF) = s.c.rbuf.takeWhile (· != LF) := by rw [hrbuf]
    rw [turn_parseCmd hst hs, Session.parseTurn, tryReadCommand, if_neg hascii, tryReadAscii_line hd', hline]
    cases processCommand cfg env { negotiate s.c with out := [] } s.g (cText (chopLine (s.c.rbuf.takeWhile (· != LF))))
      (cText cont) <;> rfl

variable (cfg env) in
/-- A text read alone is heard with its first line and all that follows. -/
theorem Session.Listens.hears {line body : Bytes} (h : s.Listens) (hline : LF ∉ line) (hfirst : line.headD 0 ≠ 0x80)
    (hne : line ≠ []) (hbody : ∀ b ∈ body, b ≠ 0) :
    ∃ s', s.turn cfg env (.data (line ++ LF :: body)) = some s' ∧ s'.stop = false ∧ s'.c.state = .parseCmd ∧
      s'.heard = some (cText (chopLine line), body) := by
  have hmsg : line ++ LF :: body ≠ [] := by simp
  have htcp : s.c.transport ≠ .udp := by simp [h.transport]
  have hturn : s.turn cfg env (.data (line ++ LF :: body)) =
      some { s with c := tryReadNetwork s.c (line ++ LF :: body), input := s.input ++ (line ++ LF :: body) } := by
    simp only [Session.turn, h.running, h.state, Session.readTurn, htcp, hmsg, if_false, Bool.false_eq_true]
  refine ⟨_, hturn, h.running, rfl, ?_⟩
  have hrbuf : (tryReadNetwork s.c (line ++ LF :: body)).rbuf = line ++ LF :: body := by
    rw [tryReadNetwork, h.empty, List.nil_append]
  have hall : ∀ b ∈ line, (b != LF) = true := fun b hb => bne_iff_ne.mpr fun he => hline (he ▸ hb)
  have hascii : (negotiate (tryReadNetwork s.c (line ++ LF :: body))).protocol ≠ .binary := by
    have h0 : (tryReadNetwork s.c (line ++ LF :: body)).rbuf0 = line.headD 0 := by
      cases line with
      | nil => exact absurd rfl hne
      | cons b line => rw [tryReadNetwork, h.empty]; rfl
    unfold negotiate
    split
    · rw [h0, if_neg hfirst]
      simp
    · exact h.protocol
  rw [Session.heard, if_neg hascii, readLine, hrbuf, List.dropWhile_append_of_pos hall, List.takeWhile_append_of_pos hall,
    List.dropWhile_cons_of_neg (by simp), List.takeWhile_cons_of_neg (by simp), List.append_nil]
  dsimp only
  rw [cText_eq hbody]

theorem handlerOf_crash {name : Bytes} (h : name ∈ [ascii "CRASH", ascii "CRASHED"]) :
    handlerOf (tokenizeCommand name) = .other ∧ tokenizeCommand name = ⟨[name], none⟩ := by
  have hall : ∀ w ∈ [ascii "CRASH", ascii "CRASHED"],
      handlerOf (tokenizeCommand w) = .other ∧ tokenizeCommand w = ⟨[w], none⟩ := by decide +kernel
  exact hall name h

/-- What is heard as CRASH or CRASHED comes to its branch, and the read buffer is
dropped. -/
theorem Session.crash_turn (hmode : cfg.ramcubeMode = true) (hst : s.stop = false) (hs : s.c.state = .parseCmd)
    (hh : s.heard = some (command, leftCom)) (hname : command ∈ [ascii "CRASH", ascii "CRASHED"]) :
    s.turn cfg env .go = some { s with
      c := { negotiate s.c with out := [], rbuf := [] }
      executed := s.executed ++ [.line command] } := by
  obtain ⟨hother, htokens⟩ := handlerOf_crash hname
  have hpeer : command ∈ [ascii "HEARTBEAT", ascii "CRASH", ascii "CRASHED"] := List.mem_cons_of_mem _ hname
  have hproc : processCommand cfg env { negotiate s.c with out := [] } s.g command leftCom =
      some ({ negotiate s.c with out := [] }, s.g, 1) := by
    rw [processCommand_other hother, htokens, processOther, if_pos hmode]
    simp [ramcubeProcessCommands, Tokens.ntokens, Tokens.value, hpeer]
  rw [s.heard_turn hst hs hh, hproc]
  rfl

variable (cfg env s) in
/-- The text, in one read, comes to the branch of a command, with what is behind its
line. -/
def Session.ReadsAs (msg command leftCom : Bytes) : Prop :=
  ∃ s' s'', s.turn cfg env (.data msg) = some s' ∧ s'.heard = some (command, leftCom) ∧
    s'.turn cfg env .go = some s'' ∧ s''.executed = s'.executed ++ [.line command] ∧ s''.c.rbuf = []

variable (env) in
theorem Session.Listens.reads {line body : Bytes} (h : s.Listens) (hmode : cfg.ramcubeMode = true)
    (hline : line ∈ [ascii "CRASH\r", ascii "CRASHED"]) (hbody : ∀ b ∈ body, b ≠ 0) :
    s.ReadsAs cfg env (line ++ LF :: body) (cText (chopLine line)) body := by
  have hlines : ∀ w ∈ [ascii "CRASH\r", ascii "CRASHED"], LF ∉ w ∧ w.headD 0 ≠ 0x80 ∧ w ≠ [] ∧
      cText (chopLine w) ∈ [ascii "CRASH", ascii "CRASHED"] := by decide +kernel
  obtain ⟨hlf, hfirst, hne, hname⟩ := hlines line hline
  obtain ⟨s', hturn, hst, hs, hheard⟩ := h.hears cfg env hlf hfirst hne hbody
  exact ⟨s', _, hturn, hheard, s'.crash_turn hmode hst hs hheard hname, rfl, rfl⟩

/-! ## The words -/

/-- The coordinator finds the address of the primary. -/
theorem RamcubeNode.crash_text (n : RamcubeNode) (peerSin : SockaddrIn) (p : Address) :
    n.crash peerSin (p.text ++ [CR, LF]) = some (n.backupOut.map fun i => (i, crashedText p.ip p.port peerSin)) := by
  have hsplit : p.text ++ [CR, LF] = p.ip ++ colon :: (decimal p.port ++ CR :: [LF]) := by simp [Address.text]
  have htokens : tokens isDelim (p.text ++ [CR, LF]) = [p.ip, decimal p.port] := by
    rw [hsplit, tokens_cons (fun b hb => p.mem_text_delim.1 (.inl hb)) p.ip_ne (by decide),
      tokens_cons (fun b hb => p.mem_text_delim.1 (.inr hb)) (decimal_ne_nil _) (by decide), tokens_skip (by decide)]
    rfl
  have hport : atoi (decimal p.port) = p.port := atoi_decimal (Nat.lt_trans p.port_lt (by decide))
  rw [RamcubeNode.crash, htokens]
  simp only [List.foldl_cons, List.foldl_nil, hport, if_pos p.ip_length]

/-! ## From the recovery node to the backup -/

/-- The only text that `recovery_cb` writes. -/
theorem recoveryCb_text {node node' : RecoveryNode} {p : Address} {out m : Bytes} (hcb : node.recoveryCb p = some node')
    (hout : node.coordinator = some out) (hm : node'.coordinator = some (out ++ m)) (hne : m ≠ []) : m = crashText p := by
  simp only [RecoveryNode.recoveryCb, Option.bind_eq_bind, Option.bind_eq_some_iff] at hcb
  obtain ⟨⟨table, crash⟩, -, hcb⟩ := hcb
  cases crash with
  | true =>
    simp only [hout, if_true, Option.bind_some, Option.some.injEq] at hcb
    rw [← hcb] at hm
    exact (List.append_cancel_left (Option.some.inj hm)).symm
  | false =>
    simp only [Bool.false_eq_true, if_false, Option.some.injEq] at hcb
    rw [← hcb] at hm
    exact absurd (List.self_eq_append_right.mp (Option.some.inj (hout.symm.trans hm))) hne

/-- The coordinator takes the address of the primary out of the message that `recovery_cb`
writes, and the backup takes it and the address of the recovery node out of the message
that the coordinator writes. -/
theorem crash_round_trip {cfg' : Config} {env' : Env} {node node' : RecoveryNode} {coordinator : RamcubeNode}
    {p r : SockaddrIn} {out m : Bytes} {sc sb : Session} (hp : p.sin_port ≠ 0) (hr : r.sin_port ≠ 0)
    (hcb : node.recoveryCb (p.address hp) = some node') (hout : node.coordinator = some out)
    (hm : node'.coordinator = some (out ++ m)) (hne : m ≠ []) (hmode : cfg.ramcubeMode = true)
    (hmode' : cfg'.ramcubeMode = true) (hc : sc.Listens) (hb : sb.Listens) :
    ∃ left text left', sc.ReadsAs cfg env m (ascii "CRASH") left ∧
      coordinator.crash r left = some (coordinator.backupOut.map fun i => (i, text)) ∧
      sb.ReadsAs cfg' env' text (ascii "CRASHED") left' ∧
      crashedPeers left' = some (inetNtoa p.sin_addr, {
        primaryPort := p.sin_port.toNat
        recoveryIp := inetNtoa r.sin_addr
        recoveryPort := r.sin_port.toNat }) := by
  have hlines : cText (chopLine (ascii "CRASH\r")) = ascii "CRASH" ∧ cText (chopLine (ascii "CRASHED")) = ascii "CRASHED" ∧
      ascii "CRASH\r\n" = ascii "CRASH\r" ++ [LF] ∧ ascii "CRASHED\n\r" = ascii "CRASHED" ++ [LF, CR] := by decide +kernel
  obtain ⟨hcrash, hcrashed, htext, htext'⟩ := hlines
  have hwritten : m = ascii "CRASH\r" ++ LF :: ((p.address hp).text ++ [CR, LF]) := by
    rw [recoveryCb_text hcb hout hm hne, crashText, htext]
    simp
  have hsent : crashedText (p.address hp).ip (p.address hp).port r =
      ascii "CRASHED" ++ LF :: crashedMessage (p.address hp) (r.address hr) := by
    rw [crashedText, htext', crashedMessage, Address.text, Address.text]
    simp [SockaddrIn.address, decimalInt]
  have hbody : ∀ b ∈ (p.address hp).text ++ [CR, LF], b ≠ 0 := by
    intro b hb
    simp only [List.mem_append, List.mem_cons, List.not_mem_nil, or_false] at hb
    obtain hb | rfl | rfl := hb
    · exact (p.address hp).text_ne_zero hb
    · decide
    · decide
  have hbody' : ∀ b ∈ crashedMessage (p.address hp) (r.address hr), b ≠ 0 := by
    intro b hb
    simp only [crashedMessage, List.cons_append, List.mem_cons, List.mem_append] at hb
    obtain rfl | hb | rfl | hb := hb
    · decide
    · exact (p.address hp).text_ne_zero hb
    · decide
    · exact (r.address hr).text_ne_zero hb
  have hreads := hc.reads env hmode List.mem_cons_self hbody
  have hreads' := hb.reads env' hmode' (List.mem_cons_of_mem _ List.mem_cons_self) hbody'
  rw [hcrash, ← hwritten] at hreads
  rw [hcrashed, ← hsent] at hreads'
  exact ⟨_, _, _, hreads, coordinator.crash_text r (p.address hp), hreads',
    crashedPeers_message (p.address hp) (r.address hr)⟩

/-- A primary that no HEARTBEAT came from for two seconds. -/
def silentPrimary : SockaddrIn := ⟨⟨10, 107, 19, 8⟩, 11211⟩

def recoveryPeer : SockaddrIn := ⟨⟨10, 107, 19, 10⟩, 11212⟩

def silentTable (p : Address) (MaxTimes : Int) : List HeartBeatInfo :=
  [{ b_primary_ip := p.ip, b_primary_port := p.port, MaxTimes := MaxTimes, used := true }]

/-- The recovery node before the third tick, connected to the coordinator. -/
def waitingNode (p : Address) (MaxTimes : Int) (coordinator : Bytes) : RecoveryNode :=
  { PrimaryTable := silentTable p MaxTimes, timers := [], coordinator := some coordinator }

theorem recoveryCb_waiting (p : Address) : (waitingNode p 2 []).recoveryCb p = some (waitingNode p 3 (crashText p)) := by
  simp [RecoveryNode.recoveryCb, waitingNode, silentTable, countUp, HeartBeatInfo.isOf, intValue]

/-- A connection in ramcube mode that is read from. -/
def readingSession : Session := { connSession (connNew smallBackup 4096 .read .tcp) (globalsInit 16) with stop := false }

theorem listens_reading : readingSession.Listens := ⟨rfl, rfl, rfl, nofun, rfl⟩

theorem crash_round_trip_silent : ∃ left text left',
    readingSession.ReadsAs smallBackup default (crashText (silentPrimary.address (by decide))) (ascii "CRASH") left ∧
      (emptyNode recoveryPeer).crash recoveryPeer left =
        some ((emptyNode recoveryPeer).backupOut.map fun i => (i, text)) ∧
      readingSession.ReadsAs smallBackup default text (ascii "CRASHED") left' ∧
      crashedPeers left' = some (ascii "10.107.19.8", {
        primaryPort := 11211
        recoveryIp := ascii "10.107.19.10"
        recoveryPort := 11212 }) := by
  have hips : inetNtoa silentPrimary.sin_addr = ascii "10.107.19.8" ∧ inetNtoa recoveryPeer.sin_addr = ascii "10.107.19.10" := by
    decide +kernel
  rw [← hips.1, ← hips.2]
  exact crash_round_trip (p := silentPrimary) (by decide) (by decide) (recoveryCb_waiting _) rfl rfl (crashText_ne_nil _) rfl rfl
    listens_reading listens_reading

end RamCube
