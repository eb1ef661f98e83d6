import RamCube.Backup.Interleaving
import RamCube.Server.BackupConn

/-! # One reply for each request

Several whole requests that are read together are one request to the backup: what follows
the first one is taken for its record, and the whole buffer is dropped. A call of
`try_read_network` is answered once, so every request is answered exactly if no call brings
more than one (`backup_replies_iff`). -/
namespace RamCube

variable {cfg : Config} {k : BackupConn} {s s' : Session} {p : Address} {groups : List (List BackupRequest)}
  {reads : List (Option (List BackupRequest))}

/-- The replies to the first requests of the groups. -/
def headReplies (groups : List (List BackupRequest)) : Bytes :=
  groups.flatMap fun g => (g.head?.map BackupRequest.reply).getD []

theorem headReplies_append (gs gs' : List (List BackupRequest)) :
    headReplies (gs ++ gs') = headReplies gs ++ headReplies gs' := List.flatMap_append

/-- The connection has nothing left to do until the next read. -/
structure Waiting (s : Session) : Prop where
  state : s.c.state = .waiting ∨ s.c.state = .read
  empty : s.c.rbuf = []

/-- Reads that return whole requests, or find nothing. -/
def groupReads (p : Address) (reads : List (Option (List BackupRequest))) : List ReadResult :=
  reads.map fun
    | some g => .data (wires p g)
    | none => .again

def requestsRead (reads : List (Option (List BackupRequest))) : List BackupRequest := reads.flatMap fun g => g.getD []

/-- What the calls of `try_read_network` bring that make the reads, if each finds the buffer
empty and the size that the answer to the one before has left. -/
inductive CallsRead (p : Address) : Nat → List (Option (List BackupRequest)) → List (List BackupRequest) → Prop where
  | done {rsize : Nat} : CallsRead p rsize [] []
  | call {rsize n : Nat} {as bs : List (Option (List BackupRequest))} {groups : List (List BackupRequest)} (hne : requestsRead as ≠ [])
      (hcall : networkCall 4 rsize 0 (groupReads p as) = some (wires p (requestsRead as), n, []))
      (next : CallsRead p (shrunkSize n 0) bs groups) : CallsRead p rsize (as ++ bs) (requestsRead as :: groups)

/-- A request whose record fits the buffer of the backup. -/
def BackupRequest.fits (p : Address) (r : BackupRequest) : Prop := Fits p r.record

theorem wires_eq_nil (p : Address) (rs : List BackupRequest) : wires p rs = [] ↔ rs = [] := by
  cases rs with
  | nil => exact ⟨fun _ => rfl, fun _ => rfl⟩
  | cons r rs => simp [wires_cons]

theorem lf_mem_wires {rs : List BackupRequest} (h : rs ≠ []) : LF ∈ wires p rs := by
  obtain ⟨r, rs, rfl⟩ := List.exists_cons_of_ne_nil h
  simp [wires_cons]

theorem requestsOf_append (as bs : List (Option (List BackupRequest))) : requestsRead (as ++ bs) = requestsRead as ++ requestsRead bs :=
  List.flatMap_append

/-- The calls bring all requests. -/
theorem CallsRead.flatten {rsize : Nat} (h : CallsRead p rsize reads groups) : groups.flatten = requestsRead reads := by
  induction h with
  | done => rfl
  | call _ _ _ ih => rw [List.flatten_cons, ih, requestsOf_append]

/-- The groups that are answered, the one in the buffer, if any, and those to come. -/
structure GroupFeed (p : Address) (groups done : List (List BackupRequest)) (cur : List BackupRequest)
    (todo : List (List BackupRequest)) (f : Feed) : Prop where
  groups : groups = done ++ (if cur = [] then todo else cur :: todo)
  buf : f.buf = wires p cur
  said : f.said = headReplies done
  fits : ∀ g ∈ done, ∀ r, g = [r] → r.fits p

/-- The calls to come bring what is to come. -/
def GroupInv (p : Address) (groups : List (List BackupRequest)) (f : Feed) (rest : List ReadResult) : Prop :=
  ∃ done cur todo reads, GroupFeed p groups done cur todo f ∧ rest = groupReads p reads ∧
    CallsRead p (if cur = [] then f.rsize else shrunkSize f.rsize 0) reads todo

theorem GroupFeed.line {done todo : List (List BackupRequest)} {cur : List BackupRequest} {f : Feed}
    (h : GroupFeed p groups done cur todo f) (hlf : LF ∈ f.buf) : ∃ r rs, cur = r :: rs ∧
      f.buf = requestLine r.dataConnPtr ++ CR :: LF :: (message p r.record ++ wires p rs) := by
  cases cur with
  | nil =>
    rw [h.buf] at hlf
    exact absurd hlf List.not_mem_nil
  | cons r rs => exact ⟨r, rs, rfl, h.buf.trans (wires_cons p r rs)⟩

theorem leftCom_ne_zero {r : BackupRequest} {rs : List BackupRequest} :
    ∀ x ∈ message p r.record ++ wires p rs, x ≠ 0 := by
  intro x hx
  obtain hx | hx := List.mem_append.mp hx
  · exact message_ne_zero hx
  · exact wires_ne_zero hx

theorem lf_mem_of_served {os : Os} {f f' : Feed} (h : LineServed os f f') : LF ∈ f.buf := by
  cases h with
  | request => simp
  | @lineEnd rsize eol more said b he =>
    simp only [List.mem_cons, List.not_mem_nil, or_false] at he
    rcases he with rfl | rfl <;> simp

/-- The group in the buffer is answered once. -/
theorem GroupFeed.served {done todo : List (List BackupRequest)} {cur : List BackupRequest} {os : Os} {f f' : Feed}
    (h : GroupFeed p groups done cur todo f) (hs : LineServed os f f') :
    GroupFeed p groups (done ++ [cur]) [] todo f' ∧ ∃ r rs, cur = r :: rs ∧
      appendToSegment os f.backup (message p r.record ++ wires p rs) = some f'.backup := by
  obtain ⟨r, rs, rfl, hbuf⟩ := h.line (lf_mem_of_served hs)
  obtain ⟨b', happ, rfl⟩ := hs.request_inv hbuf
  refine ⟨⟨?_, rfl, ?_, ?_⟩, r, rs, rfl, happ⟩
  · rw [h.groups]
    simp
  · rw [headReplies_append, ← h.said]
    simp [headReplies]
  · intro g hg q hgq
    obtain hg | hg := List.mem_append.mp hg
    · exact h.fits g hg q hgq
    · rw [List.mem_singleton.mp hg] at hgq
      obtain ⟨rfl, rfl⟩ := List.cons.inj hgq
      by_contra hfit
      have hnone : appendToSegment os f.backup (message p r.record) = _ :=
        appendToSegment_message f.backup p r.record
      rw [if_neg (show ¬Fits p r.record from hfit)] at hnone
      simp [wires, hnone] at happ

/-- A call takes the reads of the next group. -/
theorem GroupInv.call {f : Feed} {rest : List ReadResult} (h : GroupInv p groups f rest) (hlf : LF ∉ f.buf) (hrest : rest ≠ []) :
    ∃ n more g, networkCall 4 f.rsize f.buf.length rest = some (wires p g, n, more) ∧ g ≠ [] ∧
      GroupInv p groups { f with buf := f.buf ++ wires p g, rsize := n } more := by
  obtain ⟨done, cur, todo, reads, h, rfl, hcalls⟩ := h
  cases cur with
  | cons r rs =>
    rw [h.buf] at hlf
    exact absurd (lf_mem_wires (List.cons_ne_nil r rs)) hlf
  | nil =>
    have hbuf : f.buf = [] := h.buf
    rw [if_pos rfl] at hcalls
    cases hcalls with
    | done => exact absurd rfl hrest
    | @call _ n as bs todo hne hcall next =>
      have hgroups : groups = done ++ requestsRead as :: todo := h.groups
      refine ⟨n, groupReads p bs, requestsRead as, ?_, hne, ⟨done, requestsRead as, todo, bs, ⟨?_, ?_, h.said, h.fits⟩, rfl, ?_⟩⟩
      · rw [hbuf, groupReads, List.map_append]
        exact networkCall_append hcall _
      · rw [if_neg hne, hgroups]
      · rw [hbuf]
        rfl
      · rwa [if_neg hne]

/-- What was sent when all groups are read and the connection waits. -/
theorem GroupInv.done {f : Feed} (h : GroupInv p groups f []) (ha : Attends s f) (hw : Waiting s) :
    s.sent = headReplies groups ∧ ∀ g ∈ groups, ∀ r, g = [r] → r.fits p := by
  obtain ⟨done, cur, todo, reads, hf, hrest, hcalls⟩ := h
  have hcur : cur = [] := (wires_eq_nil p cur).mp (by rw [← hf.buf, ← ha.buf, hw.empty])
  have hreads : reads = [] := List.map_eq_nil_iff.mp hrest.symm
  have htodo : todo = [] := by
    rw [hreads] at hcalls
    generalize hnil : ([] : List (Option (List BackupRequest))) = reads at hcalls
    cases hcalls with
    | done => rfl
    | @call _ _ as bs _ hne =>
      obtain ⟨rfl, rfl⟩ := List.append_eq_nil_iff.mp hnil.symm
      exact absurd rfl hne
  have hgroups : groups = done := by simpa [hcur, htodo] using hf.groups
  have hsent : s.sent = f.said := by
    have hp := ha.phase
    unfold Phase at hp
    rcases hw.state with hs | hs
    · rw [hs] at hp
      exact hp.2
    · rw [hs] at hp
      exact hp.2
  rw [hgroups]
  exact ⟨hsent.trans hf.said, hf.fits⟩

/-- A connection that has just become the one of a primary. -/
structure Opened (k : BackupConn) : Prop where
  tracks : Tracks k ⟨[], k.s.g.backup, [], k.nextSize⟩
  kept : BackupOk k.s.g.backup

/-- Calls that bring single requests that fit, at a backup with at most one segment. -/
def SingleInv (p : Address) (groups : List (List BackupRequest)) (f : Feed) (rest : List ReadResult) : Prop :=
  GroupInv p groups f rest ∧ BackupOk f.backup

section

variable (hall : ∀ g ∈ groups, ∃ r, g = [r] ∧ r.fits p)
include hall

theorem GroupFeed.single {done todo : List (List BackupRequest)} {r : BackupRequest} {rs : List BackupRequest}
    {f : Feed} (h : GroupFeed p groups done (r :: rs) todo f) : rs = [] ∧ r.fits p := by
  obtain ⟨q, hq, hfit⟩ := hall (r :: rs) (by simp [h.groups])
  obtain ⟨rfl, rfl⟩ := List.cons.inj hq
  exact ⟨rfl, hfit⟩

theorem SingleInv.serves {f : Feed} {rest : List ReadResult} (h : SingleInv p groups f rest) (hlf : LF ∈ f.buf) (os : Os) :
    ∃ f', LineServed os f f' := by
  obtain ⟨⟨done, cur, todo, reads, hf, _⟩, hok⟩ := h
  obtain ⟨r, rs, rfl, hbuf⟩ := hf.line hlf
  obtain ⟨rfl, hfit⟩ := hf.single hall
  obtain ⟨b', hd⟩ := delivered_of_fits (d := ⟨os, p, r.record⟩) hok hfit
  refine LineServed.of_append hbuf leftCom_ne_zero (show _ = some b' from ?_)
  rw [wires, List.flatMap_nil, List.append_nil]
  exact hd

end

/-- A server in ramcube mode. -/
def smallBackup : Config := { smallServer with ramcube := some ⟨secondPrimary, 0⟩ }

/-- A connection of it that a primary has opened. -/
def openedSession : Session :=
  connSession { connNew smallBackup 4096 .waiting .tcp with protocol := .ascii, mType := .BACKUP_SERVER } (globalsInit 16)

/-- With the buffer of a new connection. -/
def openedConn : BackupConn := ⟨openedSession, DATA_BUFFER_SIZE⟩

theorem opened_openedConn : Opened openedConn where
  tracks := ⟨⟨rfl, rfl, rfl, rfl, rfl, rfl, List.not_mem_nil, rfl⟩, rfl⟩
  kept := backupOk_init []

def storedOn (ptr : Nat) (h0 : 0 < ptr) (h : ptr < 2 ^ 63) : BackupRequest := ⟨ptr, setRecord, h0, h⟩

end RamCube
