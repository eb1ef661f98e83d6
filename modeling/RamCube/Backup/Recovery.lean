import RamCube.Backup.Interleaving
import RamCube.Backup.Replay
import RamCube.Server.Text

/-! # Recovery from a backup

When a primary has crashed, its backup loads the segment files of the primary and sends
the records of the first one, in the order of the directory, to the recovery node. The
segment still in memory is not sent. So the records sent are all the records answered
exactly when the last of them filled the first segment (`recovery_complete_iff`). -/
namespace RamCube

/-! ## Loading (Segment.c) -/

/-- A segment read back from its file. The last seglet keeps the `next` it was written
with, `dangling` if it had one. -/
structure Loaded where
  header : Head
  segleter : List Seglet
  dangling : Bool

/-- What `calloc` leaves where the file has no more seglets. -/
def emptySeglet : Seglet := { length := 0, objector := { avaliable := false, timestamp := 0, command := [] } }

/-- The number of seglets, from the name of the file. -/
def getSegmentLength (str : Bytes) : Int := charNumber (str.takeWhile (· != dot))

def readFile (b : Backup) (dirName : Path) (fileName : Bytes) : Option Loaded := do
  let file ← b.disk.find? fun f => f.dir == dirName && f.name == fileName
  let len := getSegmentLength fileName
  if len < 0 then none
  else some {
    header := file.head
    segleter := file.seglets.take len.toNat ++ List.replicate (len.toNat - file.seglets.length) emptySeglet
    dangling := len.toNat < file.seglets.length }

def lower (b : UInt8) : UInt8 := if 65 ≤ b ∧ b ≤ 90 then b + 32 else b

/-- `strcasecmp(ptr, ".ram") == 0` of the text from the last dot on. -/
def isRam (name : Bytes) : Bool :=
  dot ∈ name && (name.rtakeWhile (· != dot)).map lower == ascii "ram"

/-- `loadToMem`: the segments of the files of a directory, chained in the order `ents`
in which `readdir` gives its entries. -/
def loadToMem (b : Backup) (ents : List Bytes) (ipPort : Bytes) : Option (List Loaded) :=
  (ents.filter isRam).mapM (readFile b (mkStorage b.cwd ipPort))

/-- `segmentToString` (ramcube.c), of the segment at the head of the chain. -/
def segmentToString : List Loaded → Option Bytes
  | [] => none
  | seg :: _ => if seg.dangling then none else some (commands seg.segleter).flatten

/-- `send_to_recovery`: what is written to the connection `cp` to the recovery node. -/
def sendToRecovery (b : Backup) (ents : List Bytes) (ip : Bytes) (port : Int) (cp : Nat) (me : Address) :
    Option Bytes := do
  let seg ← loadToMem b ents (ipPortDir ip port)
  let str ← segmentToString seg
  some (ascii "RECOVERY_REQUEST " ++ decimal cp ++ [CR, LF] ++ str ++ me.text ++ [CR, LF])

/-! ## Messages to a backup (ramcube.c) -/

/-- The BACKUP_REQUEST branch of `ramcube_process_commands`: the record is stored, then
answered. The pointer must not be NULL. -/
def backupRequest (os : Os) (b : Backup) (dataConnPtr leftCom : Bytes) : Option (Backup × Bytes) := do
  let ptr := strtol dataConnPtr
  if ptr = 0 then none
  else
    let b ← appendToSegment os b leftCom
    some (b, ascii "BACKUP_REPLY " ++ decimal (ptr % 2 ^ 64).toNat)

/-- The addresses after CRASHED, word by word. -/
structure Peers where
  primaryPort : Int
  recoveryIp : Bytes
  recoveryPort : Int
deriving DecidableEq

def peerWord (peers : Peers) (p : Bytes) : Peers :=
  if peers.primaryPort = 0 then { peers with primaryPort := atoi p }
  else if peers.recoveryIp = [] then { peers with recoveryIp := p }
  else if peers.recoveryPort = 0 then { peers with recoveryPort := atoi p }
  else peers

def isDelim (b : UInt8) : Bool := b == CR || b == LF || b == space || b == colon

/-- The CRASHED branch of `ramcube_process_commands`; `cp` is the new connection to the
recovery node. -/
def crashed (b : Backup) (ents : List Bytes) (leftCom : Bytes) (cp : Nat) (me : Address) : Option Bytes :=
  match tokens isDelim leftCom with
  | [] => none
  | ip :: words =>
    let peers := words.foldl peerWord { primaryPort := 0, recoveryIp := [], recoveryPort := 0 }
    if ip.length < 16 ∧ peers.recoveryIp.length < 16 then sendToRecovery b ents ip peers.primaryPort cp me
    else none

/-- The addresses of the CRASHED branch. -/
def crashedPeers (leftCom : Bytes) : Option (Bytes × Peers) :=
  match tokens isDelim leftCom with
  | [] => none
  | ip :: words =>
    let peers := words.foldl peerWord { primaryPort := 0, recoveryIp := [], recoveryPort := 0 }
    if ip.length < 16 ∧ peers.recoveryIp.length < 16 then some (ip, peers) else none

theorem crashed_eq (b : Backup) (ents : List Bytes) (leftCom : Bytes) (cp : Nat) (me : Address) :
    crashed b ents leftCom cp me =
      (crashedPeers leftCom).bind fun (ip, peers) => sendToRecovery b ents ip peers.primaryPort cp me := by
  unfold crashed crashedPeers
  cases tokens isDelim leftCom with
  | nil => rfl
  | cons ip words =>
    dsimp only
    split <;> rfl

/-- What the coordinator writes after the line CRASHED. -/
def crashedMessage (primary recovery : Address) : Bytes := CR :: primary.text ++ space :: recovery.text

/-! ## Runs of a backup with one primary -/

/-- A record sent for the connection `connPtr` of the primary. -/
structure Request where
  os : Os
  connPtr : Nat
  command : SetCommand
  ptr_ne : connPtr ≠ 0
  ptr_lt : connPtr < 2 ^ 64

/-- The backup answers a request. -/
def Answers (p : Address) (b : Backup) (q : Request) (b' : Backup) : Prop :=
  backupRequest q.os b (decimal q.connPtr) (message p q.command.record) =
    some (b', ascii "BACKUP_REPLY " ++ decimal q.connPtr)

/-- The entries of the directory of a primary, in any order. -/
def Lists (ents : List Bytes) (b : Backup) (p : Address) : Prop :=
  ents.Perm (ascii "." :: ascii ".." ::
    (b.disk.filter fun f => f.dir = mkStorage b.cwd (ipPortDir p.ip p.port)).map File.name)

def answered (qs : List Request) : List (Bytes × Bytes) := qs.map fun q => q.command.pair

/-- The recovery node is sent every answered record, as often as it was answered, and
replaying what it is sent gives each key its last answered value. -/
def Recovers (b : Backup) (ents : List Bytes) (p recovery me : Address) (cp : Nat) (qs : List Request) : Prop :=
  ∃ payload, crashed b ents (crashedMessage p recovery) cp me =
      some (ascii "RECOVERY_REQUEST " ++ decimal cp ++ [CR, LF] ++ payload) ∧
    (∀ c, (answered qs).count c ≤ (replayed payload).count c) ∧
    ∀ key, replay (replayed payload) key = lastValue (answered qs) key

/-- The bytes of the records of some requests. -/
def recordBytes (qs : List Request) : Nat := (qs.map fun q => q.command.record.text.length).sum

/-- The last record is the first to go over the capacity of a segment, and the file of
this segment can be opened. -/
def FillsOne (cwd : Path) (p : Address) (qs : List Request) : Prop :=
  MAX_SEGMENT_CAPACITY < recordBytes qs ∧ (recordBytes qs.dropLast : Int) ≤ MAX_SEGMENT_CAPACITY ∧
    ∀ q ∈ qs.getLast?, q.os.fopen (mkStorage cwd (ipPortDir p.ip p.port)) (fileName qs.length q.os.now) = true

/-! ## What is held and what is filed -/

theorem answers_iff {p : Address} {b b' : Backup} {q : Request} :
    Answers p b q b' ↔ Delivered b ⟨q.os, p, q.command.record⟩ b' := by
  have hptr : strtol (decimal q.connPtr) = q.connPtr := by
    simpa using strtol_decimal q.connPtr [] nofun
  have hmod : ((q.connPtr : Int) % 2 ^ 64).toNat = q.connPtr := by
    have := q.ptr_lt
    omega
  have hne : (q.connPtr : Int) ≠ 0 := by simpa using q.ptr_ne
  unfold Answers Delivered backupRequest
  rw [hptr, if_neg hne, hmod]
  cases appendToSegment q.os b (message p q.command.record) <;> simp

def recordTexts (qs : List Request) : List Bytes := qs.map fun q => q.command.record.text

@[simp]
theorem recordBytes_append (qs rs : List Request) : recordBytes (qs ++ rs) = recordBytes qs + recordBytes rs := by
  simp [recordBytes]

theorem length_flatten_recordTexts (qs : List Request) : (recordTexts qs).flatten.length = recordBytes qs := by
  simp [recordTexts, recordBytes, List.length_flatten, Function.comp_def]

/-- Records that one after the other filled a segment. -/
structure Filled (qs : List Request) : Prop where
  overfull : MAX_SEGMENT_CAPACITY < recordBytes qs
  before : (recordBytes qs.dropLast : Int) ≤ MAX_SEGMENT_CAPACITY

/-- A file has the records of a stretch of the requests, and their number in its name. -/
structure FileOk (qs : List Request) (f : File) : Prop where
  name : ∃ t, f.name = fileName f.seglets.length t
  stretch : ∃ pre blk post, qs = pre ++ blk ++ post ∧ commands f.seglets = recordTexts blk ∧ Filled blk

/-- The state after requests `qs`: the last of them are in memory, and only when they
are all does the disk have no file. -/
structure Holds (cwd : Path) (p : Address) (b : Backup) (qs : List Request) : Prop where
  ok : BackupOk b
  own : OwnSegment b p
  files : ∀ f ∈ b.disk, FileOk qs f
  held : ∃ pre mem, qs = pre ++ mem ∧ heldOf b p = recordTexts mem ∧
    (recordBytes mem : Int) ≤ MAX_SEGMENT_CAPACITY ∧
    (pre = [] ∧ b.disk = [] ∧ b.cwd = cwd ∨ MAX_SEGMENT_CAPACITY < recordBytes pre)

theorem holds_init (cwd : Path) (p : Address) : Holds cwd p (initSegmentManager cwd) [] where
  ok := backupOk_init cwd
  own := nofun
  files := nofun
  held := ⟨[], [], rfl, rfl, by decide, .inl ⟨rfl, rfl, rfl⟩⟩

theorem FileOk.append {qs : List Request} {f : File} (h : FileOk qs f) (q : Request) : FileOk (qs ++ [q]) f := by
  obtain ⟨hname, pre, blk, post, rfl, hcommands, hfilled⟩ := h
  exact ⟨hname, pre, blk, post ++ [q], by simp, hcommands, hfilled⟩

variable {cwd : Path} {p : Address} {b b' : Backup} {qs : List Request} {q : Request}

/-- The segment a request is added to has the records held and the new one; once they
are too many it goes to a file. -/
theorem Holds.answers (h : Holds cwd p b qs) (hq : Answers p b q b') :
    ∃ s : Segment, s.header.sinAddr = p.ip ∧ s.header.sinPort = p.port ∧ SegmentOk s ∧
      commands s.segleter = heldOf b p ++ [q.command.record.text] ∧
      (0 ≤ s.header.capacity ∧ b' = { b with Manager := { used := true, segment := .seg s .null } } ∨
        s.header.capacity < 0 ∧ b' = { persist q.os b s with Manager := { used := true, segment := .null } }) := by
  obtain ⟨_, cur, s, hlist, hcur, rfl, hb⟩ := (answers_iff.mp hq).cases h.ok
  exact ⟨_, extended_addr, extended_port, .extended hcur rfl,
    by rw [extended_commands, heldOf_one hlist, recordSeglet_command], hb⟩

theorem heldOf_single {s : Segment} (hs : s.isOf p.ip p.port = true) :
    heldOf { b with Manager := { used := true, segment := .seg s .null } } p = commands s.segleter := by
  simp [heldOf, SegmentPtr.segments, hs]

theorem Holds.step (h : Holds cwd p b qs) (hq : Answers p b q b') : Holds cwd p b' (qs ++ [q]) := by
  obtain ⟨s, haddr, hport, hs, hcommands, hb⟩ := h.answers hq
  obtain ⟨pre, mem, rfl, hheld, hmem, hpre⟩ := h.held
  have hnew : commands s.segleter = recordTexts (mem ++ [q]) := by
    rw [hcommands, hheld]
    simp [recordTexts]
  have hcap : s.header.capacity = MAX_SEGMENT_CAPACITY - recordBytes (mem ++ [q]) := by
    rw [hs.capacity, hnew, length_flatten_recordTexts]
  have hof : s.isOf p.ip p.port = true := by simp [Segment.isOf, haddr, hport]
  have hold : ∀ f ∈ b.disk, FileOk (pre ++ mem ++ [q]) f := fun f hf => (h.files f hf).append q
  have hok := h.ok.step (answers_iff.mp hq)
  obtain ⟨hroom, rfl⟩ | ⟨hfull, rfl⟩ := hb
  · have hown : ∀ t ∈ [s], t.isOf p.ip p.port = true := fun t ht => List.mem_singleton.mp ht ▸ hof
    refine ⟨hok, hown, hold, pre, mem ++ [q], by simp, ?_, by omega, hpre⟩
    rw [heldOf_single hof, hnew]
  · refine ⟨hok, List.forall_mem_nil _, ?_, pre ++ (mem ++ [q]), [], by simp, rfl, by decide, .inr ?_⟩
    · have hfile : FileOk (pre ++ mem ++ [q]) (segmentFile q.os b s) :=
        ⟨⟨q.os.now, by simp [segmentFile, hs.num]⟩, pre, mem ++ [q], [], by simp, hnew,
          ⟨by omega, by simpa using hmem⟩⟩
      intro f hf
      simp only [persist] at hf
      split at hf
      · obtain hf | hf := List.mem_append.mp hf
        · exact hold f (List.mem_of_mem_filter hf)
        · rw [List.mem_singleton.mp hf]
          exact hfile
      · exact hold f hf
    · rw [recordBytes_append]
      omega

theorem Holds.run {rs : List Request} (hr : Run (Answers p) b rs b') (h : Holds cwd p b qs) :
    Holds cwd p b' (qs ++ rs) := by
  induction hr generalizing qs with
  | nil => simpa using h
  | cons hq _ ih => simpa using ih (h.step hq)

theorem holds_of_run (hr : Run (Answers p) (initSegmentManager cwd) qs b) : Holds cwd p b qs := by
  simpa using Holds.run hr (holds_init cwd p)

/-- The disk after the request that fills the first segment. -/
theorem Holds.fills (h : Holds cwd p b qs) (hq : Answers p b q b')
    (hbefore : (recordBytes qs : Int) ≤ MAX_SEGMENT_CAPACITY)
    (hover : MAX_SEGMENT_CAPACITY < recordBytes (qs ++ [q])) :
    ∃ f : File, f.dir = mkStorage cwd (ipPortDir p.ip p.port) ∧ f.name = fileName (qs.length + 1) q.os.now ∧
      commands f.seglets = recordTexts (qs ++ [q]) ∧
      (q.os.fopen f.dir f.name = true ∧ b'.disk = [f] ∧ b'.cwd = cwd ∨
        q.os.fopen f.dir f.name = false ∧ b'.disk = []) := by
  obtain ⟨s, haddr, hport, hs, hcommands, hb⟩ := h.answers hq
  obtain ⟨pre, mem, rfl, hheld, hmem, hpre⟩ := h.held
  have hfirst : pre = [] ∧ b.disk = [] ∧ b.cwd = cwd := by
    obtain hpre | hpre := hpre
    · exact hpre
    · simp only [recordBytes_append] at hbefore
      omega
  obtain ⟨rfl, hdisk, rfl⟩ := hfirst
  have hnew : commands s.segleter = recordTexts (mem ++ [q]) := by
    rw [hcommands, hheld]
    simp [recordTexts]
  have hlength : s.segleter.length = mem.length + 1 := by
    have := congrArg List.length hnew
    simpa [commands, recordTexts] using this
  have hcap : s.header.capacity = MAX_SEGMENT_CAPACITY - recordBytes (mem ++ [q]) := by
    rw [hs.capacity, hnew, length_flatten_recordTexts]
  simp only [List.nil_append] at hover
  obtain ⟨hroom, rfl⟩ | ⟨_, rfl⟩ := hb
  · omega
  · refine ⟨segmentFile q.os b s, by simp [segmentFile, haddr, hport], by simp [segmentFile, hs.num, hlength],
      hnew, ?_⟩
    cases hopen : q.os.fopen (segmentFile q.os b s).dir (segmentFile q.os b s).name
    · exact .inr ⟨rfl, by simp [persist, hopen, hdisk]⟩
    · exact .inl ⟨rfl, by simp [persist, hopen, hdisk], by simp [persist, hopen]⟩

/-! ## What is sent -/

theorem getSegmentLength_fileName (n t : Nat) : getSegmentLength (fileName n t) = n := by
  have hdigits : ∀ b ∈ decimal n, (b != dot) = true := fun b hb => by
    simpa using show b ≠ dot from (digit_ne (mem_decimal hb)).2.2.2.2.1
  have hsplit : fileName n t = decimal n ++ dot :: (decimal t ++ ascii ".ram") := by
    simp [fileName, ascii, dot]
  unfold getSegmentLength
  rw [hsplit, List.takeWhile_append_of_pos hdigits, List.takeWhile_cons_of_neg (by simp), List.append_nil,
    charNumber_decimal]

theorem isRam_fileName (n t : Nat) : isRam (fileName n t) = true := by
  have hram : ∀ b ∈ ascii "ram", (b != dot) = true := by decide +kernel
  have hsplit : fileName n t = (decimal n ++ ascii "." ++ decimal t) ++ dot :: ascii "ram" := by
    simp [fileName, ascii, dot]
  unfold isRam
  rw [hsplit, rtakeWhile_append (by simp) hram]
  simp only [List.mem_append, List.mem_cons, true_or, or_true, decide_true, Bool.true_and]
  decide

/-- A file whose name tells the number of its seglets is read back whole. -/
theorem readFile_whole {f : File} {t : Nat} {dir : Path} {name : Bytes} (hf : f.name = fileName f.seglets.length t)
    (hfind : b.disk.find? (fun f => f.dir == dir && f.name == name) = some f) :
    readFile b dir name = some { header := f.head, segleter := f.seglets, dangling := false } := by
  have hname : f.name = name := by
    have := List.find?_some hfind
    simp only [Bool.and_eq_true, beq_iff_eq] at this
    exact this.2
  unfold readFile
  rw [hfind, ← hname, hf, getSegmentLength_fileName]
  simp

/-- The segment at the head of the chain is that of a file. -/
theorem loadToMem_head (h : Holds cwd p b qs) {ents : List Bytes} {ipPort : Bytes} {seg : Loaded}
    {rest : List Loaded} (hload : loadToMem b ents ipPort = some (seg :: rest)) :
    ∃ f ∈ b.disk, seg = { header := f.head, segleter := f.seglets, dangling := false } := by
  unfold loadToMem at hload
  cases hents : ents.filter isRam with
  | nil => simp [hents] at hload
  | cons name names =>
    rw [hents, List.mapM_cons] at hload
    cases hread : readFile b (mkStorage b.cwd ipPort) name with
    | none => simp [hread] at hload
    | some seg' =>
      have hseg : seg' = seg := by
        cases hnames : names.mapM (readFile b (mkStorage b.cwd ipPort)) with
        | none => simp [hread, hnames] at hload
        | some segs =>
          simp only [hread, hnames, Option.bind_eq_bind, Option.bind_some, Option.pure_def,
            Option.some.injEq, List.cons.injEq] at hload
          exact hload.1
      cases hfind : b.disk.find? fun f => f.dir == mkStorage b.cwd ipPort && f.name == name with
      | none => simp [readFile, hfind] at hread
      | some f =>
        have hmem := List.mem_of_find?_eq_some hfind
        obtain ⟨t, ht⟩ := (h.files f hmem).name
        rw [readFile_whole ht hfind] at hread
        exact ⟨f, hmem, hseg ▸ (Option.some.inj hread).symm⟩

theorem Address.mem_text_delim (p : Address) {b : UInt8} :
    (b ∈ p.ip ∨ b ∈ decimal p.port → isDelim b = false) ∧ (b ∈ p.text → b ≠ space) := by
  have hip : b ∈ p.ip → b ≠ CR ∧ b ≠ LF ∧ b ≠ space ∧ b ≠ colon := fun h => by
    obtain hd | rfl := p.ip_ok b h
    · obtain ⟨_, h1, h2, h3, _, h4⟩ := digit_ne hd
      exact ⟨h2, h1, h4, h3⟩
    · decide
  have hport : b ∈ decimal p.port → b ≠ CR ∧ b ≠ LF ∧ b ≠ space ∧ b ≠ colon := fun h => by
    obtain ⟨_, h1, h2, h3, _, h4⟩ := digit_ne (mem_decimal h)
    exact ⟨h2, h1, h4, h3⟩
  constructor
  · intro h
    have := h.elim hip hport
    simp [isDelim, this]
  · intro h
    simp only [Address.text, List.mem_append, List.mem_cons] at h
    obtain h | rfl | h := h
    · exact (hip h).2.2.1
    · decide
    · exact (hport h).2.2.1

/-- The addresses in a CRASHED, as the backup finds them. -/
theorem crashedMessage_words (p recovery : Address) : tokens isDelim (crashedMessage p recovery) =
      [p.ip, decimal p.port, recovery.ip, decimal recovery.port] ∧
    [decimal p.port, recovery.ip, decimal recovery.port].foldl peerWord
      { primaryPort := 0, recoveryIp := [], recoveryPort := 0 } =
        { primaryPort := p.port, recoveryIp := recovery.ip, recoveryPort := recovery.port } := by
  have hsplit : crashedMessage p recovery = CR :: (p.ip ++ colon :: (decimal p.port ++ space ::
      (recovery.ip ++ colon :: decimal recovery.port))) := by
    simp [crashedMessage, Address.text]
  have hport : ∀ a : Address, atoi (decimal a.port) = a.port := fun a => atoi_decimal (Nat.lt_trans a.port_lt (by decide))
  have hne : p.port ≠ 0 := Nat.pos_iff_ne_zero.mp p.port_pos
  refine ⟨?_, by simp [peerWord, hport, hne, recovery.ip_ne]⟩
  rw [hsplit, tokens_skip (by decide),
    tokens_cons (fun b hb => p.mem_text_delim.1 (.inl hb)) p.ip_ne (by decide),
    tokens_cons (fun b hb => p.mem_text_delim.1 (.inr hb)) (decimal_ne_nil _) (by decide),
    tokens_cons (fun b hb => recovery.mem_text_delim.1 (.inl hb)) recovery.ip_ne (by decide),
    tokens_last (fun b hb => recovery.mem_text_delim.1 (.inr hb)) (decimal_ne_nil _)]

/-- The backup finds the addresses of both nodes. -/
theorem crashedPeers_message (p r : Address) :
    crashedPeers (crashedMessage p r) = some (p.ip, { primaryPort := p.port, recoveryIp := r.ip, recoveryPort := r.port }) := by
  obtain ⟨htokens, hwords⟩ := crashedMessage_words p r
  rw [crashedPeers, htokens]
  simp only [hwords, p.ip_length, r.ip_length, and_self, if_true]

/-- The backup finds the address of the primary in the message again. -/
theorem crashed_message (ents : List Bytes) (p recovery me : Address) (cp : Nat) :
    crashed b ents (crashedMessage p recovery) cp me = sendToRecovery b ents p.ip p.port cp me := by
  rw [crashed_eq, crashedPeers_message]
  rfl

/-- The line of an address is no storage command. -/
theorem storageCommands_address (me : Address) (fuel : Nat) : storageCommands fuel (me.text ++ [CR, LF]) = [] := by
  cases fuel with
  | zero => rfl
  | succ fuel =>
    have hline : ∀ b ∈ me.text ++ [CR], (b != LF) = true := fun b hb => by
      obtain hb | hb := List.mem_append.mp hb
      · simpa using (me.mem_text hb).1
      · rw [List.mem_singleton.mp hb]
        decide
    have hwords : ∀ b ∈ chopLine (me.text ++ [CR]), (b == space) = false := fun b hb => by
      have hb' : b ∈ me.text ++ [CR] := by
        unfold chopLine at hb
        split at hb
        · exact List.mem_of_mem_dropLast hb
        · exact hb
      obtain hb' | hb' := List.mem_append.mp hb'
      · simpa using me.mem_text_delim.2 hb'
      · rw [List.mem_singleton.mp hb']
        decide
    have hset : setLine (me.text ++ [CR]) = none := by
      unfold setLine tokens
      rw [List.splitOnP_eq_singleton hwords]
      by_cases he : (chopLine (me.text ++ [CR])).isEmpty <;> simp [he]
    rw [show me.text ++ [CR, LF] = (me.text ++ [CR]) ++ [LF] by simp, storageCommands,
      List.dropWhile_append_of_pos hline, List.dropWhile_cons_of_neg (by simp),
      List.takeWhile_append_of_pos hline, List.takeWhile_cons_of_neg (by simp), List.append_nil]
    simp only [hset]
    cases fuel <;> rfl

/-- What is sent after the request line is read back as the records of the file. -/
theorem replayed_payload (qs : List Request) (me : Address) :
    replayed ((recordTexts qs).flatten ++ (me.text ++ [CR, LF])) = answered qs := by
  have hle : qs.length ≤ ((recordTexts qs).flatten ++ (me.text ++ [CR, LF])).length := by
    rw [List.length_append, length_flatten_recordTexts]
    apply Nat.le_add_right_of_le
    induction qs with
    | nil => exact Nat.zero_le _
    | cons q qs ih =>
      have hpos : 0 < q.command.record.text.length := by simp [Record.text]
      simp only [recordBytes, List.map_cons, List.sum_cons, List.length_cons] at ih ⊢
      omega
  obtain ⟨fuel, hfuel⟩ := Nat.exists_eq_add_of_le hle
  have hflat : (recordTexts qs).flatten = (qs.map Request.command).flatMap fun c => c.record.text := by
    simp [recordTexts, List.flatMap, Function.comp_def]
  have hread := storageCommands_records (qs.map Request.command) fuel (me.text ++ [CR, LF])
  unfold replayed
  rw [hfuel, hflat]
  rw [List.length_map] at hread
  rw [hread, storageCommands_address]
  simp [answered, Function.comp_def]

/-- If anything is sent to the recovery node, it is the records of one file. -/
theorem Holds.sent (h : Holds cwd p b qs) {ents : List Bytes} {recovery me : Address} {cp : Nat} {payload : Bytes}
    (hsent : crashed b ents (crashedMessage p recovery) cp me =
      some (ascii "RECOVERY_REQUEST " ++ decimal cp ++ [CR, LF] ++ payload)) :
    ∃ f ∈ b.disk, ∃ pre blk post, qs = pre ++ blk ++ post ∧ Filled blk ∧ replayed payload = answered blk := by
  rw [crashed_message] at hsent
  unfold sendToRecovery at hsent
  cases hload : loadToMem b ents (ipPortDir p.ip p.port) with
  | none => simp [hload] at hsent
  | some segs =>
    cases segs with
    | nil => simp [hload, segmentToString] at hsent
    | cons seg rest =>
      obtain ⟨f, hf, rfl⟩ := loadToMem_head h hload
      obtain ⟨pre, blk, post, hqs, hcommands, hfilled⟩ := (h.files f hf).stretch
      refine ⟨f, hf, pre, blk, post, hqs, hfilled, ?_⟩
      simp only [hload, segmentToString, hcommands, Option.bind_eq_bind, Option.bind_some, Bool.false_eq_true,
        if_false, Option.some.injEq, List.append_assoc] at hsent
      have hpayload : payload = (recordTexts blk).flatten ++ (me.text ++ [CR, LF]) := by
        simpa using hsent.symm
      rw [hpayload, replayed_payload]

/-! ## All the records -/

theorem filled_append_singleton (qs : List Request) (q : Request) :
    Filled (qs ++ [q]) ↔ MAX_SEGMENT_CAPACITY < recordBytes (qs ++ [q]) ∧
      (recordBytes qs : Int) ≤ MAX_SEGMENT_CAPACITY := by
  constructor
  · intro h
    exact ⟨h.overfull, by simpa using h.before⟩
  · intro h
    exact ⟨h.1, by simpa using h.2⟩

theorem Filled.snoc (h : Filled qs) : ∃ rs r, qs = rs ++ [r] := by
  refine (List.eq_nil_or_concat' qs).resolve_left ?_
  rintro rfl
  exact absurd h.overfull (by decide)

/-- Requests whose records are all in a stretch of them are that stretch. -/
theorem stretch_of_count {pre blk post : List Request} (hqs : qs = pre ++ blk ++ post)
    (hcount : ∀ c, (answered qs).count c ≤ (answered blk).count c) : qs = blk := by
  have hlength : (answered qs).length ≤ (answered blk).length :=
    (List.subperm_ext_iff.mpr fun c _ => hcount c).length_le
  simp only [answered, hqs, List.length_map, List.length_append] at hlength
  have hpre : pre = [] := List.length_eq_zero_iff.mp (by omega)
  have hpost : post = [] := List.length_eq_zero_iff.mp (by omega)
  simp [hqs, hpre, hpost]

/-- A directory with one file gives its records. -/
theorem sendToRecovery_one {f : File} {t : Nat} (hdisk : b.disk = [f]) (hname : f.name = fileName f.seglets.length t)
    (hdir : f.dir = mkStorage b.cwd (ipPortDir p.ip p.port)) {ents : List Bytes} (hents : Lists ents b p)
    (cp : Nat) (me : Address) :
    sendToRecovery b ents p.ip p.port cp me = some (ascii "RECOVERY_REQUEST " ++ decimal cp ++ [CR, LF] ++
      ((commands f.seglets).flatten ++ (me.text ++ [CR, LF]))) := by
  have hram : ents.filter isRam = [f.name] := by
    have hperm := hents.filter isRam
    have hlist : (ascii "." :: ascii ".." ::
        (b.disk.filter fun f => f.dir = mkStorage b.cwd (ipPortDir p.ip p.port)).map File.name).filter isRam =
          [f.name] := by
      rw [hdisk]
      simp only [List.filter_cons, hdir, decide_true, if_true, List.filter_nil, List.map_cons, List.map_nil]
      rw [if_neg (by decide), if_neg (by decide), hname, isRam_fileName, if_pos rfl]
    rw [hlist] at hperm
    exact List.perm_singleton.mp hperm
  have hfind : b.disk.find? (fun g => g.dir == mkStorage b.cwd (ipPortDir p.ip p.port) && g.name == f.name) =
      some f := by
    simp [hdisk, hdir]
  unfold sendToRecovery loadToMem
  rw [hram]
  simp [readFile_whole hname hfind, segmentToString]

/-- The recovery node is sent all the answered records exactly if the last of them was
the first to fill a segment, whatever the order of the directory. -/
theorem recovery_complete_iff (cwd : Path) (p recovery me : Address) (cp : Nat) (qs : List Request) (b : Backup)
    (ents : List Bytes) (hrun : Run (Answers p) (initSegmentManager cwd) qs b) (hents : Lists ents b p) :
    Recovers b ents p recovery me cp qs ↔ FillsOne cwd p qs := by
  constructor
  · intro ⟨payload, hsent, hcount, _⟩
    obtain ⟨f, hf, pre, blk, post, hqs, hfilled, hreplayed⟩ := (holds_of_run hrun).sent hsent
    rw [hreplayed] at hcount
    obtain rfl := stretch_of_count hqs hcount
    obtain ⟨rs, r, rfl⟩ := hfilled.snoc
    obtain ⟨hover, hbefore⟩ := (filled_append_singleton rs r).mp hfilled
    refine ⟨hover, by simpa using hbefore, ?_⟩
    intro q hq
    obtain rfl : r = q := by simpa using hq
    obtain ⟨b0, hrun0, hlast⟩ := hrun.split
    cases hlast with
    | cons hr hnil =>
      cases hnil
      obtain ⟨g, hdir, hname, _, ⟨hopen, _⟩ | ⟨_, hdisk⟩⟩ := (holds_of_run hrun0).fills hr hbefore hover
      · rw [hdir, hname] at hopen
        simpa using hopen
      · simp [hdisk] at hf
  · intro ⟨hover, hbefore, hopen⟩
    obtain ⟨rs, r, rfl⟩ := Filled.snoc ⟨hover, hbefore⟩
    rw [List.dropLast_concat] at hbefore
    obtain ⟨b0, hrun0, hlast⟩ := hrun.split
    cases hlast with
    | cons hr hnil =>
      cases hnil
      have hopen' := hopen r (by simp)
      obtain ⟨g, hdir, hname, hcommands, ⟨_, hdisk, hcwd⟩ | ⟨hclosed, _⟩⟩ :=
        (holds_of_run hrun0).fills hr hbefore hover
      · have hlength : g.seglets.length = rs.length + 1 := by
          have := congrArg List.length hcommands
          simpa [commands, recordTexts] using this
        have hsend := sendToRecovery_one hdisk (hlength ▸ hname) (hcwd ▸ hdir) hents cp me
        rw [hcommands] at hsend
        refine ⟨_, (crashed_message ents p recovery me cp).trans hsend, ?_, ?_⟩
        · intro c
          rw [replayed_payload]
        · intro key
          rw [replayed_payload, replay_eq_lastValue]
      · rw [hdir, hname] at hclosed
        simp [hclosed] at hopen'

/-! ## One record -/

section

def aCommand : SetCommand := ⟨ascii "a", ascii "v", by decide +kernel, by decide, by decide, by decide +kernel⟩
def aRequest : Request := { os := noon, connPtr := 4096, command := aCommand, ptr_ne := by decide, ptr_lt := by decide }

/-- The backup after one record. -/
def holdsRecord : Backup :=
  { initSegmentManager [] with
    Manager := { used := true, segment := .seg (extended none firstPrimary.ip firstPrimary.port
      (recordSeglet noon aCommand.record)) .null } }

theorem answers_aRequest : Answers firstPrimary (initSegmentManager []) aRequest holdsRecord := by
  unfold Answers
  decide +kernel

theorem lists_holdsRecord : Lists [ascii "..", ascii "."] holdsRecord firstPrimary := by
  unfold Lists
  decide +kernel

theorem recovery_complete_iff_one :
    Recovers holdsRecord [ascii "..", ascii "."] firstPrimary secondPrimary secondPrimary 8192 [aRequest] ↔
      FillsOne [] firstPrimary [aRequest] :=
  recovery_complete_iff [] firstPrimary secondPrimary secondPrimary 8192 [aRequest] holdsRecord
    [ascii "..", ascii "."] (.single answers_aRequest) lists_holdsRecord

/-- A record still in memory is not sent: there is no file to load. -/
theorem held_record_not_recovered :
    ¬ ∀ (cwd : Path) (p recovery me : Address) (cp : Nat) (qs : List Request) (b : Backup) (ents : List Bytes),
      Run (Answers p) (initSegmentManager cwd) qs b → Lists ents b p → Recovers b ents p recovery me cp qs := by
  intro h
  obtain ⟨payload, hsent, _⟩ := h [] firstPrimary secondPrimary secondPrimary 8192 [aRequest] holdsRecord
    [ascii "..", ascii "."] (.single answers_aRequest) lists_holdsRecord
  have hnone : crashed holdsRecord [ascii "..", ascii "."] (crashedMessage firstPrimary secondPrimary) 8192
      secondPrimary = none := by decide +kernel
  rw [hnone] at hsent
  exact absurd hsent nofun

end

end RamCube
