import RamCube.Backup.Persisting

/-! # Failures of `persist` (Segment.c)

`persist` goes to the directory of its file in several steps and looks at none of their
results but that of `fopen`; `appendToSegment` looks at none and frees the segment in any
case. So after a failure no record of the segment is in memory (`persist_failure_loses`),
and only a file that was opened brings the process back to the directory it was in
(`persistIn_cwd`). -/
namespace RamCube

/-! ## File system calls -/

/-- What the system answers to `access`, `mkdir` and `chdir` while a segment is persisted.
`fopen` is in `Os`. -/
structure FileSystem where
  access : Path → Bool
  mkdir : Path → Bool
  chdir : Path → Bool

/-- The working directory, and whether a call has failed. The code keeps no such flag. -/
structure Dirs where
  cwd : Path
  failed : Bool

/-- `mkdir` of a directory that `access` does not find. -/
def makeDir (fs : FileSystem) (there dir : Path) (d : Dirs) : Dirs :=
  if fs.access there then d else { d with failed := d.failed || !fs.mkdir dir }

def changeDir (fs : FileSystem) (dir : Path) (d : Dirs) : Dirs :=
  if fs.chdir dir then { d with cwd := dir } else { d with failed := true }

/-- `mkStorage`, whose result is the directory `mkStorage` of the working directory. -/
def mkStorageIn (fs : FileSystem) (dirname : Bytes) (d : Dirs) : Dirs :=
  let buf := d.cwd ++ [ascii "backup"]
  let d := makeDir fs (d.cwd ++ [ascii "backup"]) buf d
  let d := changeDir fs buf d
  makeDir fs (d.cwd ++ [dirname]) (buf ++ [dirname]) d

/-- The steps of `persist` to the directory of its file. -/
def goToStorage (fs : FileSystem) (cwd : Path) (dirname : Bytes) : Dirs :=
  changeDir fs (mkStorage cwd dirname) (mkStorageIn fs dirname { cwd := cwd, failed := false })

/-- `persist`, and whether a call in it failed. -/
def persistIn (fs : FileSystem) (os : Os) (b : Backup) (seg : Segment) : Backup × Bool :=
  let maindir := b.cwd
  let d := goToStorage fs b.cwd (ipPortDir seg.header.sinAddr seg.header.sinPort)
  let file := { segmentFile os b seg with dir := d.cwd }
  let opened := os.fopen file.dir file.name
  let others := b.disk.filter fun f => !f.sameName file
  let call : PersistCall := { file := file, opened := opened, fresh := others.length == b.disk.length }
  let b := { b with persists := b.persists ++ [call] }
  if opened then
    let d := changeDir fs maindir d
    ({ b with cwd := d.cwd, disk := others ++ [file] }, d.failed)
  else ({ b with cwd := d.cwd }, true)

/-- `appendToSegment` in this file system. -/
def appendToSegmentIn (fs : FileSystem) (os : Os) (b : Backup) (cont : Bytes) : Option Backup := do
  let (ip, port, texts) ← messageTexts cont
  storeTextsWith (fun b seg => (persistIn fs os b seg).1) os ip port true b texts

/-- A file system without failures. -/
def soundFs : FileSystem := { access := fun _ => true, mkdir := fun _ => true, chdir := fun _ => true }

section

variable {fs : FileSystem} {os : Os} {b b' : Backup} {s : Segment}

/-- The directory in which `persist` opens its file. -/
def openedIn (fs : FileSystem) (b : Backup) (s : Segment) : Path :=
  (goToStorage fs b.cwd (ipPortDir s.header.sinAddr s.header.sinPort)).cwd

/-- Where only `fopen` may fail this is `persist`. -/
theorem persistIn_sound (hfs : ∀ p, fs.chdir p = true) : (persistIn fs os b s).1 = persist os b s := by
  have hdir : (goToStorage fs b.cwd (ipPortDir s.header.sinAddr s.header.sinPort)).cwd = (segmentFile os b s).dir := by
    rw [goToStorage, changeDir, if_pos (hfs _)]
    rfl
  unfold persistIn persist
  dsimp only
  rw [hdir]
  cases hopen : os.fopen (segmentFile os b s).dir (segmentFile os b s).name with
  | true => simp only [if_true, changeDir, if_pos (hfs _)]
  | false => simp

theorem keepsManager_persistIn (fs : FileSystem) (os : Os) : KeepsManager fun b seg => (persistIn fs os b seg).1 := by
  intro b s Manager
  unfold persistIn
  dsimp only [segmentFile]
  cases os.fopen (goToStorage fs b.cwd (ipPortDir s.header.sinAddr s.header.sinPort)).cwd
    (fileName s.header.segletnum os.now) <;> rfl

theorem appendToSegmentIn_sound (os : Os) (b : Backup) (cont : Bytes) :
    appendToSegmentIn soundFs os b cont = appendToSegment os b cont := by
  have hpersist : (fun b seg => (persistIn soundFs os b seg).1) = persist os :=
    funext fun b => funext fun seg => persistIn_sound fun _ => rfl
  rw [appendToSegmentIn, hpersist, appendToSegment_eq]
  simp only [storeTextsWith_persist]
  rfl

/-- The process is back where it was if the file was opened and the way back was open;
otherwise it stays where it looked for the file. -/
theorem persistIn_cwd : (persistIn fs os b s).1.cwd =
    if os.fopen (openedIn fs b s) (segmentFile os b s).name = true ∧ fs.chdir b.cwd = true then b.cwd
    else openedIn fs b s := by
  unfold persistIn openedIn
  dsimp only
  cases hopen : os.fopen (goToStorage fs b.cwd (ipPortDir s.header.sinAddr s.header.sinPort)).cwd
    (segmentFile os b s).name with
  | true =>
    simp only [if_true, true_and, changeDir]
    split <;> rfl
  | false => simp

theorem persistIn_persists (fs : FileSystem) (os : Os) (b : Backup) (s : Segment) :
    ∃ call : PersistCall, (persistIn fs os b s).1.persists = b.persists ++ [call] ∧
      call.file.head = s.header ∧ call.file.seglets = s.segleter := by
  unfold persistIn
  dsimp only
  cases os.fopen (goToStorage fs b.cwd (ipPortDir s.header.sinAddr s.header.sinPort)).cwd
    (segmentFile os b s).name <;> exact ⟨_, rfl, rfl, rfl⟩

theorem persistIn_unopened (hopen : ∀ dir name, os.fopen dir name = false) : (persistIn fs os b s).2 = true := by
  unfold persistIn
  dsimp only
  rw [hopen]
  rfl

/-! ## Calls -/

/-- A call of `appendToSegment`, with all that the system answers. -/
structure FsCall where
  fs : FileSystem
  os : Os
  cont : Bytes

def AppendedIn (b : Backup) (c : FsCall) (b' : Backup) : Prop := appendToSegmentIn c.fs c.os b c.cont = some b'

/-- The segment of a call of `persist`. -/
def PersistCall.segment (call : PersistCall) : Segment := { header := call.file.head, segleter := call.file.seglets }

/-- `appendToSegment` called `persist`, and something in there failed. -/
structure PersistFails (b : Backup) (c : FsCall) (b' : Backup) (call : PersistCall) : Prop where
  called : b'.persists = b.persists ++ [call]
  failed : (persistIn c.fs c.os b call.segment).2 = true

/-- Every record of the segment is still in `Manager`, and the process in its directory. -/
def StillHeld (b b' : Backup) (call : PersistCall) : Prop :=
  (∀ text ∈ commands call.file.seglets, ∃ s ∈ b'.Manager.segment.segments, text ∈ commands s.segleter) ∧ b'.cwd = b.cwd

variable {c : FsCall} {cur : Option Segment}

/-- A message leaves the manager with at most one segment, or stores a full segment away. -/
theorem appendedIn_one (h : OneSegment b cur) (ha : AppendedIn b c b') :
    b' = b ∨ ∃ s, SegmentOk s ∧ b' = keepOrWrite (fun b seg => (persistIn c.fs c.os b seg).1) b s := by
  unfold AppendedIn appendToSegmentIn at ha
  rw [Option.bind_eq_bind, Option.bind_eq_some_iff] at ha
  obtain ⟨⟨ip, port, texts⟩, -, ha⟩ := ha
  cases texts with
  | nil => exact .inl (Option.some.inj ha).symm
  | cons str texts =>
    obtain ⟨s, hs, hb'⟩ := storeTextsWith_one (keepsManager_persistIn c.fs c.os) h ha
    exact .inr ⟨s, hs.ok, hb'⟩

theorem oneSegment_step (h : ∃ cur, OneSegment b cur) (ha : AppendedIn b c b') : ∃ cur, OneSegment b' cur := by
  obtain ⟨cur, hone⟩ := h
  obtain rfl | ⟨s, hs, rfl⟩ := appendedIn_one hone ha
  · exact ⟨cur, hone⟩
  · by_cases hfull : s.header.capacity < 0
    · exact ⟨none, OneSegment.writeWith _ b hfull⟩
    · exact ⟨some s, OneSegment.keepWith _ b hs (Int.not_lt.mp hfull)⟩

theorem oneSegment_runIn {cwd : Path} {calls : List FsCall} (h : Run AppendedIn (initSegmentManager cwd) calls b) :
    ∃ cur, OneSegment b cur :=
  h.invariant (I := fun b => ∃ cur, OneSegment b cur) (fun _ _ _ => oneSegment_step) ⟨none, rfl, nofun, fun _ => rfl⟩

/-- A segment that was persisted is not in the manager, whatever came of it. -/
theorem persisted_not_held {call : PersistCall} (h : OneSegment b cur) (ha : AppendedIn b c b')
    (hcalled : b'.persists = b.persists ++ [call]) : ¬StillHeld b b' call := by
  have hgrows : b'.persists.length = b.persists.length + 1 := by
    rw [hcalled, List.length_append, List.length_singleton]
  obtain rfl | ⟨s, hs, rfl⟩ := appendedIn_one h ha
  · omega
  · by_cases hfull : s.header.capacity < 0
    · rw [keepOrWrite, if_pos hfull] at hcalled ⊢
      obtain ⟨made, hmade, -, hseglets⟩ := persistIn_persists c.fs c.os b s
      obtain rfl : made = call := List.singleton_inj.mp (List.append_cancel_left (hmade.symm.trans hcalled))
      intro hheld
      obtain ⟨l, hl⟩ := List.exists_mem_of_ne_nil _ hs.filled
      obtain ⟨t, ht, -⟩ := hheld.1 l.objector.command (hseglets ▸ List.mem_map_of_mem hl)
      cases ht
    · rw [keepOrWrite, if_neg hfull] at hgrows
      exact absurd hgrows (Nat.ne_of_lt (Nat.lt_succ_self _))

/-- In every run, after a call in which `persist` failed, not every record of its segment is
in memory and the process where it was. -/
theorem persist_failure_loses {cwd : Path} {calls : List FsCall} {call : PersistCall}
    (hrun : Run AppendedIn (initSegmentManager cwd) calls b) (ha : AppendedIn b c b') (hfails : PersistFails b c b' call) :
    ¬StillHeld b b' call := by
  obtain ⟨cur, hone⟩ := oneSegment_runIn hrun
  exact persisted_not_held hone ha hfails.called

theorem run_sound {calls : List AppendCall} (h : Run Appended b calls b') :
    Run AppendedIn b (calls.map fun a => { fs := soundFs, os := a.os, cont := a.cont }) b' := by
  induction h with
  | nil => exact .nil _
  | cons ha _ ih => exact .cons ((appendToSegmentIn_sound _ _ _).trans ha) ih

end

/-! ## A file that cannot be opened -/

/-- A further record of the small calls, `fopen` failing. -/
def closedCall : FsCall where
  fs := soundFs
  os := { noon with fopen := fun _ _ => false }
  cont := smallCall.cont

/-- The record that fills the segment. -/
theorem closedCall_fails : ∃ calls b b' call, Run AppendedIn (initSegmentManager []) calls b ∧
    AppendedIn b closedCall b' ∧ PersistFails b closedCall b' call := by
  obtain ⟨b, hr⟩ := run_smallCalls 65536
  have hlen : setRecord.text.length = 16 := by decide +kernel
  have hmatches := (matches_init []).run hr
  have hheld : (List.replicate 65536 smallCall).foldl Filling.call (initFilling []) =
      ⟨[], some (firstPrimary.ip, firstPrimary.port), List.replicate 65536 setRecord.text, []⟩ :=
    calls_held (k := 65536) smallCall_texts (by omega)
  rw [hheld] at hmatches
  obtain ⟨cur, hone, howner, hcommands⟩ := hmatches.segment
  have htexts := extended_texts closedCall.os firstPrimary.ip firstPrimary.port setRecord.text hone
  rw [textsOf_eq howner hcommands, if_pos rfl, ← List.replicate_succ'] at htexts
  have hfull : (extended cur firstPrimary.ip firstPrimary.port (textSeglet closedCall.os setRecord.text)).header.capacity < 0 := by
    have hcapacity := htexts.ok.capacity
    have hbytes : ∀ n, (List.replicate n setRecord.text).flatten.length = n * 16 := fun n => by simp [hlen]
    rw [htexts.texts, hbytes] at hcapacity
    unfold MAX_SEGMENT_CAPACITY at hcapacity
    omega
  have hstore : storeTextWith (fun b seg => (persistIn soundFs closedCall.os b seg).1) closedCall.os firstPrimary.ip
      firstPrimary.port true b setRecord.text = _ :=
    storeTextWith_eq (keepsManager_persistIn soundFs closedCall.os) hone (.inl rfl)
  have hstep : AppendedIn b closedCall (keepOrWrite (fun b seg => (persistIn soundFs closedCall.os b seg).1) b
      (extended cur firstPrimary.ip firstPrimary.port (textSeglet closedCall.os setRecord.text))) := by
    rw [AppendedIn, appendToSegmentIn, closedCall, smallCall_texts, Option.bind_eq_bind, Option.bind_some]
    exact Option.bind_eq_some_iff.mpr ⟨_, hstore, rfl⟩
  obtain ⟨call, hcalled, -, -⟩ := persistIn_persists soundFs closedCall.os b
    (extended cur firstPrimary.ip firstPrimary.port (textSeglet closedCall.os setRecord.text))
  refine ⟨_, b, _, call, run_sound hr, hstep, ?_, persistIn_unopened fun _ _ => rfl⟩
  rw [keepOrWrite, if_pos hfull]
  exact hcalled

/-- Its 65537 records are gone. -/
theorem failed_persist_loses : ¬∀ cwd calls b c b' call, Run AppendedIn (initSegmentManager cwd) calls b →
    AppendedIn b c b' → PersistFails b c b' call → StillHeld b b' call := by
  intro h
  obtain ⟨calls, b, b', call, hrun, ha, hfails⟩ := closedCall_fails
  obtain ⟨cur, hone⟩ := oneSegment_runIn hrun
  exact persisted_not_held hone ha hfails.called (h [] calls b closedCall b' call hrun ha hfails)

theorem persist_failure_loses_closed : ∃ b b' call, PersistFails b closedCall b' call ∧ ¬StillHeld b b' call := by
  obtain ⟨calls, b, b', call, hrun, ha, hfails⟩ := closedCall_fails
  exact ⟨b, b', call, hfails, persist_failure_loses hrun ha hfails⟩

end RamCube
