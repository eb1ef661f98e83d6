import RamCube.Backup.Interleaving

/-! # The files of the segments

`persist` names a file by the number of records in the segment and the second in which
it is full. What a message adds to a segment does not depend on the segment: `messageTexts`
are the strings that the loop of `appendToSegment` stores, whatever the message is
(`appendToSegment_eq`). Counting them tells which segments are filled and when, and the
files of one primary are different exactly if these counts or seconds are
(`persisted_apart_iff`). -/
namespace RamCube

/-! ## The strings in a message -/

/-- The local variables of the loop that do not depend on what is stored. -/
structure Cut where
  command : Nat → UInt8
  j : Nat
  flag1 : Nat
  flag2 : Nat
  isDone : Bool

def Scan.cut (st : Scan) : Cut :=
  { command := st.command, j := st.j, flag1 := st.flag1, flag2 := st.flag2, isDone := st.isDone }

/-- The strings that the loop stores. -/
def cutTexts : Cut → Bytes → Option (List Bytes)
  | _, [] => some []
  | st, c :: cs =>
    if st.flag1 < 2 then
      if st.j < 2048 then
        cutTexts { st with
          command := setByte st.command st.j c
          flag1 := if c = LF then st.flag1 + 1 else st.flag1
          j := st.j + 1 } cs
      else none
    else if st.flag2 < 2 then
      let next := { st with flag2 := if c = CR then st.flag2 + 1 else st.flag2, isDone := true }
      if st.isDone then cutTexts next cs
      else do
        let str ← cString st.command 0 2048
        let texts ← cutTexts next cs
        some (str :: texts)
    else
      cutTexts {
        command := fun i => if i < 1024 then 0 else st.command i
        j := 0
        flag1 := 0
        flag2 := 0
        isDone := false } cs

/-- The address in a message, and the strings stored under it. -/
def messageTexts (cont : Bytes) : Option (Bytes × Int × List Bytes) := do
  let ipPort ← parseIpPort cont
  let rip ← getIp ipPort
  let texts ← cutTexts { command := fun _ => 0, j := 0, flag1 := 0, flag2 := 0, isDone := false }
    ((cont ++ [0]).take (getCommandLen cont ipPort + 1))
  some (rip, getPort ipPort, texts)

def textSeglet (os : Os) (str : Bytes) : Seglet :=
  { length := str.length, objector := { avaliable := true, timestamp := os.created, command := str } }

def storeText (os : Os) (ip : Bytes) (port : Int) (isFirst : Bool) (b : Backup) (str : Bytes) : Option Backup :=
  ((if isFirst then storeFirst else storeNext) ip port (textSeglet os str) b.Manager).bind fun Manager =>
    persistFull os { b with Manager := Manager }

def storeTexts (os : Os) (ip : Bytes) (port : Int) : Bool → Backup → List Bytes → Option Backup
  | _, b, [] => some b
  | isFirst, b, str :: texts => (storeText os ip port isFirst b str).bind fun b => storeTexts os ip port false b texts

section

variable {os : Os} {ip : Bytes} {port : Int}

/-- The loop stores its strings one after the other. -/
theorem scan_eq_storeTexts {cs : Bytes} {st : Scan} (hd : st.isDone = true → st.isFirst = false) :
    (cs.foldlM (scanChar os ip port) st).map Scan.backup =
      (cutTexts st.cut cs).bind (storeTexts os ip port st.isFirst st.backup) := by
  induction cs generalizing st with
  | nil => rfl
  | cons c cs ih =>
    rw [List.foldlM_cons]
    by_cases h1 : st.flag1 < 2
    · have h1' : st.cut.flag1 < 2 := h1
      by_cases hj : st.j < 2048
      · have hj' : st.cut.j < 2048 := hj
        let next : Scan := { st with
          command := setByte st.command st.j c
          flag1 := if c = LF then st.flag1 + 1 else st.flag1
          j := st.j + 1 }
        have hscan : scanChar os ip port st c = some next := by rw [scanChar, if_pos h1, if_pos hj]
        have hcut : cutTexts st.cut (c :: cs) = cutTexts next.cut cs := by rw [cutTexts, if_pos h1', if_pos hj']; rfl
        have hnext : next.isDone = true → next.isFirst = false := hd
        rw [hscan, hcut]
        exact ih hnext
      · have hj' : ¬st.cut.j < 2048 := hj
        rw [scanChar, if_pos h1, if_neg hj, cutTexts, if_pos h1', if_neg hj']
        rfl
    · have h1' : ¬st.cut.flag1 < 2 := h1
      by_cases h2 : st.flag2 < 2
      · have h2' : st.cut.flag2 < 2 := h2
        let after (b : Backup) : Scan := { st with
          backup := b
          flag2 := if c = CR then st.flag2 + 1 else st.flag2
          isDone := true
          isFirst := false }
        cases hdone : st.isDone with
        | true =>
          have hdone' : st.cut.isDone = true := hdone
          have hscan : scanChar os ip port st c = some (after st.backup) := by
            rw [scanChar, if_neg h1, if_pos h2, if_pos hdone]
            rfl
          have hcut : cutTexts st.cut (c :: cs) = cutTexts (after st.backup).cut cs := by
            rw [cutTexts, if_neg h1', if_pos h2', if_pos hdone']
            rfl
          rw [hscan, hcut, hd hdone]
          exact ih fun _ => rfl
        | false =>
          have hdone' : ¬st.cut.isDone = true := by rw [show st.cut.isDone = false from hdone]; simp
          have hscan : scanChar os ip port st c = (cString st.command 0 2048).bind fun str =>
              (storeText os ip port st.isFirst st.backup str).map after := by
            rw [scanChar, if_neg h1, if_pos h2, if_neg (by simp [hdone]), createSeglet]
            cases cString st.command 0 2048 with
            | none => rfl
            | some str => simp [storeText, textSeglet, after, Option.map_eq_bind, Option.bind_assoc]
          have hcut : cutTexts st.cut (c :: cs) = (cString st.command 0 2048).bind fun str =>
              (cutTexts (after st.backup).cut cs).map (str :: ·) := by
            rw [cutTexts, if_neg h1', if_pos h2', if_neg hdone']
            simp only [Option.map_eq_bind]
            rfl
          rw [hscan, hcut]
          cases cString st.command 0 2048 with
          | none => rfl
          | some str =>
            have hrest : ∀ b, ((cs.foldlM (scanChar os ip port) (after b)).map Scan.backup) =
                (cutTexts (after st.backup).cut cs).bind (storeTexts os ip port false b) := fun b => ih fun _ => rfl
            simp only [Option.bind_some, Option.bind_eq_bind]
            cases hs : storeText os ip port st.isFirst st.backup str with
            | none => cases cutTexts (after st.backup).cut cs <;> simp [storeTexts, hs]
            | some b =>
              simp only [Option.map_some, Option.bind_some, hrest]
              cases cutTexts (after st.backup).cut cs <;> simp [storeTexts, hs]
      · have h2' : ¬st.cut.flag2 < 2 := h2
        let next : Scan := { st with
          command := fun i => if i < 1024 then 0 else st.command i
          j := 0
          flag1 := 0
          flag2 := 0
          isDone := false }
        have hscan : scanChar os ip port st c = some next := by rw [scanChar, if_neg h1, if_neg h2]
        have hcut : cutTexts st.cut (c :: cs) = cutTexts next.cut cs := by rw [cutTexts, if_neg h1', if_neg h2']; rfl
        have hnext : next.isDone = true → next.isFirst = false := by simp
        rw [hscan, hcut]
        exact ih hnext

theorem appendToSegment_eq (b : Backup) (cont : Bytes) : appendToSegment os b cont =
    (messageTexts cont).bind fun (ip, port, texts) => storeTexts os ip port true b texts := by
  unfold appendToSegment messageTexts
  cases parseIpPort cont with
  | none => rfl
  | some ipPort =>
    simp only [Option.bind_eq_bind, Option.bind_some, Option.bind_assoc]
    cases getIp ipPort with
    | none => rfl
    | some rip =>
      let st : Scan := { backup := b, command := fun _ => 0, j := 0, flag1 := 0, flag2 := 0, isDone := false, isFirst := true }
      have hscan : (((cont ++ [0]).take (getCommandLen cont ipPort + 1)).foldlM (scanChar os rip (getPort ipPort)) st).map
          Scan.backup = _ := scan_eq_storeTexts nofun
      rw [Option.map_eq_bind] at hscan
      exact hscan

/-! ## One message -/

/-- The manager has at most one segment; this has room. -/
structure OneSegment (b : Backup) (cur : Option Segment) : Prop where
  list : b.Manager.segment = .ofOption cur
  ok : ∀ s ∈ cur, SegmentOk s ∧ 0 ≤ s.header.capacity
  unused : b.Manager.used = false → b.Manager.segment = .null

/-- A segment of this address with these records. -/
structure HoldsTexts (s : Segment) (ip : Bytes) (port : Int) (texts : List Bytes) : Prop where
  ok : SegmentOk s
  ip : s.header.sinAddr = ip
  port : s.header.sinPort = port
  texts : commands s.segleter = texts

/-- What the segment holds of an address. -/
def textsOf (cur : Option Segment) (ip : Bytes) (port : Int) : List Bytes :=
  (cur.filter fun s => s.isOf ip port).elim [] fun s => commands s.segleter

/-- The backup with this segment, which goes to its file when it is full. -/
def keepOrPersist (os : Os) (b : Backup) (s : Segment) : Backup :=
  if s.header.capacity < 0 then { persist os b s with Manager := { used := true, segment := .null } }
  else { b with Manager := { used := true, segment := .ofOption (some s) } }

variable {b b' : Backup} {cur : Option Segment} {isFirst : Bool} {str : Bytes} {texts : List Bytes}

variable (os ip port str) in
theorem extended_texts (h : OneSegment b cur) :
    HoldsTexts (extended cur ip port (textSeglet os str)) ip port (textsOf cur ip port ++ [str]) where
  ok := .extended h.ok rfl
  ip := extended_addr
  port := extended_port
  texts := extended_commands

end

/-! ## Any way to persist -/

/-- The loop of `appendToSegment` that persists and frees the segments without capacity,
for any `persist`. -/
def persistLoopWith (write : Backup → Segment → Backup) (b : Backup) (flag3 : Bool) :
    SegmentPtr → Option (Backup × SegmentPtr × Option SegmentPtr)
  | .null => some (b, .null, none)
  | .freed => none
  | .seg s temp =>
    if s.header.capacity < 0 then do
      let (b, temp', first) ← persistLoopWith write (write b s) (flag3 && temp == .null) temp
      some (b, .freed, first.or (if flag3 then some temp' else none))
    else do
      let (b, temp', first) ← persistLoopWith write b flag3 temp
      some (b, .seg s temp', first)

def persistFullWith (write : Backup → Segment → Backup) (b : Backup) : Option Backup := do
  let (b, list, first) ← persistLoopWith write b true b.Manager.segment
  some { b with Manager := { b.Manager with segment := first.getD list } }

def storeTextWith (write : Backup → Segment → Backup) (os : Os) (ip : Bytes) (port : Int) (isFirst : Bool) (b : Backup)
    (str : Bytes) : Option Backup :=
  ((if isFirst then storeFirst else storeNext) ip port (textSeglet os str) b.Manager).bind fun Manager =>
    persistFullWith write { b with Manager := Manager }

def storeTextsWith (write : Backup → Segment → Backup) (os : Os) (ip : Bytes) (port : Int) :
    Bool → Backup → List Bytes → Option Backup
  | _, b, [] => some b
  | isFirst, b, str :: texts =>
    (storeTextWith write os ip port isFirst b str).bind fun b => storeTextsWith write os ip port false b texts

/-- `keepOrPersist` for any `persist`. -/
def keepOrWrite (write : Backup → Segment → Backup) (b : Backup) (s : Segment) : Backup :=
  if s.header.capacity < 0 then { write b s with Manager := { used := true, segment := .null } }
  else { b with Manager := { used := true, segment := .ofOption (some s) } }

section

variable {write : Backup → Segment → Backup} {os : Os} {ip : Bytes} {port : Int} {b b' : Backup} {cur : Option Segment}
  {isFirst : Bool} {str : Bytes} {texts : List Bytes} {s : Segment}

theorem persistLoopWith_persist (os : Os) (list : SegmentPtr) (b : Backup) (flag3 : Bool) :
    persistLoopWith (persist os) b flag3 list = persistLoop os b flag3 list := by
  induction list generalizing b flag3 with
  | null => rfl
  | freed => rfl
  | seg s temp ih => simp only [persistLoopWith, persistLoop, ih]

theorem storeTextWith_persist (os : Os) (ip : Bytes) (port : Int) (isFirst : Bool) (b : Backup) (str : Bytes) :
    storeTextWith (persist os) os ip port isFirst b str = storeText os ip port isFirst b str := by
  simp only [storeTextWith, storeText, persistFullWith, persistFull, persistLoopWith_persist]

theorem storeTextsWith_persist (os : Os) (ip : Bytes) (port : Int) (isFirst : Bool) (b : Backup) (texts : List Bytes) :
    storeTextsWith (persist os) os ip port isFirst b texts = storeTexts os ip port isFirst b texts := by
  induction texts generalizing b isFirst with
  | nil => rfl
  | cons str texts ih => simp only [storeTextsWith, storeTexts, storeTextWith_persist, ih]

theorem persistFullWith_one (hwrite : ∀ b s, (write b s).Manager = b.Manager) (h : b.Manager.segment = .ofOption (some s)) :
    persistFullWith write b = some (if s.header.capacity < 0 then
      { write b s with Manager := { b.Manager with segment := .null } } else b) := by
  unfold persistFullWith
  rw [h]
  by_cases hc : s.header.capacity < 0
  · simp [SegmentPtr.ofOption, persistLoopWith, hc, hwrite]
  · simp only [SegmentPtr.ofOption, persistLoopWith, if_neg hc]
    obtain ⟨⟨used, segment⟩, cwd, disk, calls⟩ := b
    simp only at h
    subst h
    rfl

/-- What else is in the manager does not matter to a way to persist that leaves it alone. -/
def KeepsManager (write : Backup → Segment → Backup) : Prop :=
  ∀ b s Manager, write { b with Manager := Manager } s = { write b s with Manager := Manager }

theorem KeepsManager.eq (h : KeepsManager write) (b : Backup) (s : Segment) : (write b s).Manager = b.Manager := by
  have hself := congrArg Backup.Manager (h b s b.Manager)
  exact hself

theorem KeepsManager.keepOrWrite (h : KeepsManager write) (Manager : SegmentManager) (s : Segment) :
    RamCube.keepOrWrite write { b with Manager := Manager } s = RamCube.keepOrWrite write b s := by
  unfold RamCube.keepOrWrite
  split
  · rw [h]
  · rfl

/-- The first string of a message is stored wherever it goes, the others in a segment of
their address. -/
theorem storeTextWith_eq (hw : KeepsManager write) (h : OneSegment b cur)
    (hfirst : isFirst = true ∨ ∃ s, cur = some s ∧ s.isOf ip port = true) :
    storeTextWith write os ip port isFirst b str = some (keepOrWrite write b (extended cur ip port (textSeglet os str))) := by
  have hone : (storeFirst ip port (textSeglet os str) b.Manager).bind (fun Manager =>
      persistFullWith write { b with Manager := Manager }) =
        some (keepOrWrite write b (extended cur ip port (textSeglet os str))) := by
    rw [storeFirst_one h.list h.unused, Option.bind_some, persistFullWith_one hw.eq rfl, hw]
    rfl
  cases isFirst with
  | true => exact hone
  | false =>
    obtain ⟨s, rfl, hof⟩ := hfirst.resolve_left nofun
    have hused : b.Manager.used = true := by
      by_contra hu
      have hnull := h.unused (by simpa using hu)
      simp [h.list, SegmentPtr.ofOption] at hnull
    unfold storeTextWith
    simp only [Bool.false_eq_true, if_false, storeNext_one h.list hof, Option.bind_some, hused]
    rw [persistFullWith_one hw.eq rfl, hw]
    rfl

/-- Otherwise there is no segment to chain to. -/
theorem storeTextWith_none (h : OneSegment b cur) (hno : ∀ s, cur = some s → s.isOf ip port = false) :
    storeTextWith write os ip port false b str = none := by
  unfold storeTextWith
  simp [storeNext_none h.list fun s hs => hno s hs]

theorem storeTextWith_one (hw : KeepsManager write) (h : OneSegment b cur)
    (hs : storeTextWith write os ip port isFirst b str = some b') :
    b' = keepOrWrite write b (extended cur ip port (textSeglet os str)) := by
  by_cases hfirst : isFirst = true ∨ ∃ s, cur = some s ∧ s.isOf ip port = true
  · exact Option.some.inj (hs.symm.trans (storeTextWith_eq hw h hfirst))
  · simp only [not_or, Bool.not_eq_true, not_exists, not_and] at hfirst
    rw [hfirst.1, storeTextWith_none h hfirst.2] at hs
    cases hs

variable (write b) in
theorem OneSegment.keepWith (hs : SegmentOk s) (hroom : 0 ≤ s.header.capacity) :
    OneSegment (keepOrWrite write b s) (some s) where
  list := by rw [keepOrWrite, if_neg (by omega)]
  ok t ht := Option.some.inj ht ▸ ⟨hs, hroom⟩
  unused := by
    rw [keepOrWrite, if_neg (by omega)]
    exact nofun

variable (write b) in
theorem OneSegment.writeWith (hfull : s.header.capacity < 0) : OneSegment (keepOrWrite write b s) none where
  list := by
    rw [keepOrWrite, if_pos hfull]
    rfl
  ok := nofun
  unused _ := by rw [keepOrWrite, if_pos hfull]

/-- All strings of a message go to one segment; only the last one can fill it. -/
theorem storeTextsWith_one (hw : KeepsManager write) (h : OneSegment b cur)
    (hs : storeTextsWith write os ip port isFirst b (str :: texts) = some b') :
    ∃ s, HoldsTexts s ip port (textsOf cur ip port ++ str :: texts) ∧ b' = keepOrWrite write b s := by
  induction texts generalizing b cur isFirst str with
  | nil =>
    obtain ⟨b1, h1, hb'⟩ := Option.bind_eq_some_iff.mp hs
    obtain rfl := Option.some.inj hb'
    exact ⟨_, extended_texts os ip port str h, storeTextWith_one hw h h1⟩
  | cons next texts ih =>
    obtain ⟨b1, h1, hrest⟩ := Option.bind_eq_some_iff.mp hs
    have htexts := extended_texts os ip port str h
    obtain rfl := storeTextWith_one hw h h1
    by_cases hroom : 0 ≤ (extended cur ip port (textSeglet os str)).header.capacity
    · obtain ⟨s, hs, hb'⟩ := ih (OneSegment.keepWith write b htexts.ok hroom) hrest
      have hof : (extended cur ip port (textSeglet os str)).isOf ip port = true := by simp [Segment.isOf]
      refine ⟨s, ?_, ?_⟩
      · simpa [textsOf, Option.filter, hof, htexts.texts] using hs
      · rw [hb', show keepOrWrite write b (extended cur ip port (textSeglet os str)) = _ from if_neg (Int.not_lt.mpr hroom)]
        exact hw.keepOrWrite _ s
    · obtain ⟨b2, h2, _⟩ := Option.bind_eq_some_iff.mp hrest
      rw [storeTextWith_none (OneSegment.writeWith write b (Int.not_le.mp hroom)) (by simp)] at h2
      cases h2

/-! ## `persist` -/

theorem keepsManager_persist (os : Os) : KeepsManager (persist os) := fun _ _ _ => rfl

theorem storeText_eq (h : OneSegment b cur) (hfirst : isFirst = true ∨ ∃ s, cur = some s ∧ s.isOf ip port = true) :
    storeText os ip port isFirst b str = some (keepOrPersist os b (extended cur ip port (textSeglet os str))) := by
  rw [← storeTextWith_persist]
  exact storeTextWith_eq (keepsManager_persist os) h hfirst

theorem storeText_none (h : OneSegment b cur) (hno : ∀ s, cur = some s → s.isOf ip port = false) :
    storeText os ip port false b str = none := by
  rw [← storeTextWith_persist]
  exact storeTextWith_none h hno

variable (os b) in
theorem OneSegment.keep (hs : SegmentOk s) (hroom : 0 ≤ s.header.capacity) : OneSegment (keepOrPersist os b s) (some s) :=
  OneSegment.keepWith (RamCube.persist os) b hs hroom

variable (os b) in
theorem OneSegment.persist (hfull : s.header.capacity < 0) : OneSegment (keepOrPersist os b s) none :=
  OneSegment.writeWith (RamCube.persist os) b hfull

theorem storeTexts_one (h : OneSegment b cur) (hs : storeTexts os ip port isFirst b (str :: texts) = some b') :
    ∃ s, HoldsTexts s ip port (textsOf cur ip port ++ str :: texts) ∧ b' = keepOrPersist os b s := by
  rw [← storeTextsWith_persist] at hs
  exact storeTextsWith_one (keepsManager_persist os) h hs

/-! ## Which segments are filled -/

/-- A segment that is full: the working directory, the address, the number of records,
the second, and whether its file could be opened. -/
structure FullSegment where
  cwd : Path
  ip : Bytes
  port : Int
  records : Nat
  second : Nat
  opened : Bool
deriving DecidableEq

/-- The strings of the segment in the manager, and the segments filled before. -/
structure Filling where
  cwd : Path
  owner : Option (Bytes × Int)
  held : List Bytes
  filled : List FullSegment

def initFilling (cwd : Path) : Filling := { cwd := cwd, owner := none, held := [], filled := [] }

/-- Strings of an address. Those of another address that wait in the manager are dropped.
After an `fopen` that failed the process stays in the directory of the file. -/
def Filling.take (f : Filling) (os : Os) (ip : Bytes) (port : Int) (texts : List Bytes) : Filling :=
  let held := (if f.owner = some (ip, port) then f.held else []) ++ texts
  if MAX_SEGMENT_CAPACITY < (held.flatten.length : Int) then
    let dir := mkStorage f.cwd (ipPortDir ip port)
    let opened := os.fopen dir (fileName held.length os.now)
    { cwd := if opened then f.cwd else dir
      owner := none
      held := []
      filled := f.filled ++ [⟨f.cwd, ip, port, held.length, os.now, opened⟩] }
  else { f with owner := some (ip, port), held := held }

/-- A call of `appendToSegment`, with what the system answers. -/
structure AppendCall where
  os : Os
  cont : Bytes

def Appended (b : Backup) (a : AppendCall) (b' : Backup) : Prop := appendToSegment a.os b a.cont = some b'

def Filling.call (f : Filling) (a : AppendCall) : Filling :=
  match messageTexts a.cont with
  | none | some (_, _, []) => f
  | some (ip, port, texts) => f.take a.os ip port texts

/-- The name under which a file was written, and for whom. -/
def PersistCall.place (c : PersistCall) : Bool × (Bytes × Int) × Path × Bytes :=
  (c.opened, (c.file.head.sinAddr, c.file.head.sinPort), c.file.dir, c.file.name)

def FullSegment.place (x : FullSegment) : Bool × (Bytes × Int) × Path × Bytes :=
  (x.opened, (x.ip, x.port), mkStorage x.cwd (ipPortDir x.ip x.port), fileName x.records x.second)

structure Matches (f : Filling) (b : Backup) : Prop where
  cwd : b.cwd = f.cwd
  segment : ∃ cur, OneSegment b cur ∧ f.owner = cur.map (fun s => (s.header.sinAddr, s.header.sinPort)) ∧
    f.held = cur.elim [] fun s => commands s.segleter
  places : b.persists.map PersistCall.place = f.filled.map FullSegment.place

variable {f : Filling}

theorem matches_init (cwd : Path) : Matches (initFilling cwd) (initSegmentManager cwd) where
  cwd := rfl
  segment := ⟨none, ⟨rfl, nofun, fun _ => rfl⟩, rfl, rfl⟩
  places := rfl

theorem textsOf_eq {cur : Option Segment} (howner : f.owner = cur.map fun s => (s.header.sinAddr, s.header.sinPort))
    (hheld : f.held = cur.elim [] fun s => commands s.segleter) (ip : Bytes) (port : Int) :
    textsOf cur ip port = if f.owner = some (ip, port) then f.held else [] := by
  cases cur with
  | none => simp [textsOf, howner]
  | some s =>
    by_cases hs : s.isOf ip port = true
    · have haddr : s.header.sinAddr = ip ∧ s.header.sinPort = port := by simpa [Segment.isOf] using hs
      simp [textsOf, Option.filter, hs, howner, hheld, haddr]
    · have haddr : ¬(s.header.sinAddr = ip ∧ s.header.sinPort = port) := by simpa [Segment.isOf] using hs
      simp [textsOf, Option.filter, hs, howner, haddr]

/-- The segment that takes the strings is kept or filled. -/
theorem Matches.take {s : Segment} (h : Matches f b)
    (hs : HoldsTexts s ip port ((if f.owner = some (ip, port) then f.held else []) ++ texts)) :
    Matches (f.take os ip port texts) (keepOrPersist os b s) := by
  obtain ⟨hcwd, _, hplaces⟩ := h
  have hcap := hs.ok.capacity
  rw [hs.texts] at hcap
  unfold Filling.take
  by_cases hfull : s.header.capacity < 0
  · have hdir : (segmentFile os b s).dir = mkStorage f.cwd (ipPortDir ip port) := by
      rw [segmentFile, hs.ip, hs.port, hcwd]
    have hname : (segmentFile os b s).name =
        fileName ((if f.owner = some (ip, port) then f.held else []) ++ texts).length os.now := by
      rw [segmentFile, hs.ok.num, ← hs.texts, commands, List.length_map]
    have hone := OneSegment.persist os b hfull
    simp only
    rw [if_pos (by omega)]
    refine ⟨?_, ⟨none, hone, rfl, rfl⟩, ?_⟩
    · simp only [keepOrPersist, if_pos hfull, persist, hdir, hname, hcwd]
    · simp only [keepOrPersist, if_pos hfull, persist, List.map_append, List.map_singleton, hplaces]
      congr 1
      simp only [PersistCall.place, FullSegment.place, hdir, hname]
      simp [segmentFile, hs.ip, hs.port]
  · simp only
    rw [if_neg (by omega), keepOrPersist, if_neg hfull]
    have hone := OneSegment.keep os b hs.ok (Int.not_lt.mp hfull)
    rw [keepOrPersist, if_neg hfull] at hone
    exact ⟨hcwd, ⟨some s, hone, by simp [hs.ip, hs.port], by simp [hs.texts]⟩, hplaces⟩

theorem Matches.call {a : AppendCall} (h : Matches f b) (ha : Appended b a b') : Matches (f.call a) b' := by
  unfold Appended at ha
  rw [appendToSegment_eq, Option.bind_eq_some_iff] at ha
  obtain ⟨⟨ip, port, texts⟩, htexts, ha⟩ := ha
  unfold Filling.call
  rw [htexts]
  cases texts with
  | nil => exact Option.some.inj ha ▸ h
  | cons str texts =>
    obtain ⟨cur, hone, howner, hheld⟩ := h.segment
    obtain ⟨s, hs, rfl⟩ := storeTexts_one hone ha
    rw [textsOf_eq howner hheld] at hs
    exact h.take hs

theorem Matches.run {as : List AppendCall} (h : Matches f b) (hr : Run Appended b as b') :
    Matches (as.foldl Filling.call f) b' := by
  induction hr generalizing f with
  | nil => exact h
  | cons hs _ ih => exact ih (h.call hs)

/-! ## Files with one name -/

/-- No file was written over an earlier one of the same primary. -/
def PersistedApart (b : Backup) : Prop :=
  b.persists.Pairwise fun c d => c.opened = true → d.opened = true → c.file.head.sinAddr = d.file.head.sinAddr →
    c.file.head.sinPort = d.file.head.sinPort → c.file.sameName d.file = false

/-- No two segments of a primary with the same number of records were filled in one
second and written from one directory. -/
def SegmentsApart (f : Filling) : Prop :=
  f.filled.Pairwise fun x y => x.opened = true → y.opened = true → x.ip = y.ip → x.port = y.port → x.cwd = y.cwd →
    x.records = y.records → x.second ≠ y.second

theorem fileName_inj {n t m u : Nat} (h : fileName n t = fileName m u) : n = m ∧ t = u := by
  have hdot : ∀ k, (46 : UInt8) ∉ decimal k := fun k hk => (digit_ne (mem_decimal hk)).2.2.2.2.1 rfl
  have hsplit : ∀ n t, fileName n t = decimal n ++ 46 :: (decimal t ++ 46 :: ascii "ram") := fun n t => by
    simp [fileName, ascii]
  rw [hsplit, hsplit] at h
  obtain ⟨hnum, h⟩ := append_cons_inj (hdot n) (hdot m) h
  exact ⟨decimal_inj hnum, decimal_inj (append_cons_inj (hdot t) (hdot u) h).1⟩

/-- In every run, the files of each primary are different from each other if and only if
the segments that are filled differ in their records or seconds. -/
theorem persisted_apart_iff {cwd : Path} {as : List AppendCall} (h : Run Appended (initSegmentManager cwd) as b) :
    PersistedApart b ↔ SegmentsApart (as.foldl Filling.call (initFilling cwd)) := by
  have hplaces := ((matches_init cwd).run h).places
  let apart (x y : Bool × (Bytes × Int) × Path × Bytes) : Prop :=
    x.1 = true → y.1 = true → x.2.1 = y.2.1 → x.2.2 ≠ y.2.2
  have hpersists : PersistedApart b ↔ (b.persists.map PersistCall.place).Pairwise apart := by
    rw [List.pairwise_map]
    unfold PersistedApart
    refine iff_of_eq (congrArg (List.Pairwise · _) ?_)
    funext c d
    simp only [apart, PersistCall.place, Prod.mk.injEq, File.sameName, ne_eq, Bool.and_eq_false_iff, beq_eq_false_iff_ne]
    rw [and_imp, not_and_or]
  have hfilled : SegmentsApart (as.foldl Filling.call (initFilling cwd)) ↔
      ((as.foldl Filling.call (initFilling cwd)).filled.map FullSegment.place).Pairwise apart := by
    rw [List.pairwise_map]
    unfold SegmentsApart
    refine iff_of_eq (congrArg (List.Pairwise · _) ?_)
    funext x y
    refine propext (imp_congr_right fun _ => imp_congr_right fun _ => ?_)
    rw [FullSegment.place, FullSegment.place]
    simp only [Prod.mk.injEq, ne_eq, and_imp]
    refine imp_congr_right fun hip => imp_congr_right fun hport => ?_
    have hdir : mkStorage x.cwd (ipPortDir x.ip x.port) = mkStorage y.cwd (ipPortDir y.ip y.port) ↔ x.cwd = y.cwd := by
      simp [mkStorage, hip, hport]
    rw [hdir, not_and]
    refine imp_congr_right fun _ => ⟨fun h hname => ?_, fun h hrec hsec => h (by rw [hrec, hsec])⟩
    obtain ⟨hrec, hsec⟩ := fileName_inj hname
    exact h hrec hsec
  rw [hpersists, hfilled, hplaces]

end

/-! ## Two segments in one second -/

section

variable {cwd : Path} {ip : Bytes} {port : Int} {text : Bytes} {a : AppendCall} {b : Backup}

/-- Messages that hold the same string, all in one second. -/
theorem call_held {k : Nat} {filled : List FullSegment} (ha : messageTexts a.cont = some (ip, port, [text]))
    (hroom : (k + 1) * text.length ≤ 1024 * 1024) :
    Filling.call ⟨cwd, if k = 0 then none else some (ip, port), List.replicate k text, filled⟩ a =
      ⟨cwd, some (ip, port), List.replicate (k + 1) text, filled⟩ := by
  have hheld : ((if (if k = 0 then none else some (ip, port)) = some (ip, port) then List.replicate k text else []) ++ [text]) =
      List.replicate (k + 1) text := by
    cases k with
    | zero => rfl
    | succ k => simp [List.replicate_succ']
  have hlen : ((List.replicate (k + 1) text).flatten.length : Int) = ((k + 1) * text.length : Nat) := by simp
  unfold Filling.call
  rw [ha]
  simp only [Filling.take, hheld]
  rw [hlen, if_neg (by unfold MAX_SEGMENT_CAPACITY; omega)]

theorem calls_held {k : Nat} {filled : List FullSegment} (ha : messageTexts a.cont = some (ip, port, [text]))
    (hroom : k * text.length ≤ 1024 * 1024) :
    (List.replicate k a).foldl Filling.call ⟨cwd, none, [], filled⟩ =
      ⟨cwd, if k = 0 then none else some (ip, port), List.replicate k text, filled⟩ := by
  induction k with
  | zero => rfl
  | succ k ih =>
    have hk : k * text.length ≤ 1024 * 1024 := Nat.le_trans (Nat.mul_le_mul_right _ (Nat.le_succ k)) hroom
    rw [List.replicate_succ', List.foldl_concat, ih hk, call_held ha hroom]
    rfl

theorem calls_filled {k : Nat} {filled : List FullSegment} (ha : messageTexts a.cont = some (ip, port, [text]))
    (hroom : k * text.length ≤ 1024 * 1024) (hfull : 1024 * 1024 < (k + 1) * text.length)
    (hopen : ∀ dir name, a.os.fopen dir name = true) :
    (List.replicate (k + 1) a).foldl Filling.call ⟨cwd, none, [], filled⟩ =
      ⟨cwd, none, [], filled ++ [⟨cwd, ip, port, k + 1, a.os.now, true⟩]⟩ := by
  have hheld : ((if (if k = 0 then none else some (ip, port)) = some (ip, port) then List.replicate k text else []) ++ [text]) =
      List.replicate (k + 1) text := by
    cases k with
    | zero => rfl
    | succ k => simp [List.replicate_succ']
  have hlen : ((List.replicate (k + 1) text).flatten.length : Int) = ((k + 1) * text.length : Nat) := by simp
  rw [List.replicate_succ', List.foldl_concat, calls_held ha hroom]
  unfold Filling.call
  rw [ha]
  simp only [Filling.take, hheld]
  rw [hlen, if_pos (by unfold MAX_SEGMENT_CAPACITY; omega)]
  simp [hopen]

/-- A message that fits can be sent over and over. -/
theorem run_replicate {d : Delivery} (hok : BackupOk b) (hfit : Fits d.primary d.record) (n : Nat) :
    ∃ b', Run Appended b (List.replicate n ⟨d.os, message d.primary d.record⟩) b' ∧ BackupOk b' := by
  induction n generalizing b with
  | zero => exact ⟨b, .nil b, hok⟩
  | succ n ih =>
    obtain ⟨b1, h1⟩ := delivered_of_fits hok hfit
    obtain ⟨b', hr, hok'⟩ := ih (hok.step h1)
    exact ⟨b', .cons h1 hr, hok'⟩

def smallCall : AppendCall := { os := noon, cont := message firstPrimary setRecord }

theorem smallCall_texts : messageTexts smallCall.cont = some (firstPrimary.ip, (firstPrimary.port : Int), [setRecord.text]) := by
  decide +kernel

theorem fits_setRecord : Fits firstPrimary setRecord := by decide +kernel

theorem run_smallCalls (n : Nat) : ∃ b, Run Appended (initSegmentManager []) (List.replicate n smallCall) b := by
  obtain ⟨b, hr, -⟩ := run_replicate (d := deliverFrom firstPrimary) (backupOk_init []) fits_setRecord n
  exact ⟨b, hr⟩

/-- As many records as fill a segment, in one second. -/
def segmentOf (t : Nat) : List AppendCall := List.replicate 65537 { smallCall with os := { noon with now := t } }

theorem segmentOf_filled (t : Nat) (filled : List FullSegment) : (segmentOf t).foldl Filling.call ⟨[], none, [], filled⟩ =
    ⟨[], none, [], filled ++ [⟨[], firstPrimary.ip, firstPrimary.port, 65537, t, true⟩]⟩ := by
  have hlen : setRecord.text.length = 16 := by decide +kernel
  exact calls_filled (k := 65536) smallCall_texts (by omega) (by omega) fun _ _ => rfl

/-- What `persist` is called for when two segments fill up one after the other. -/
theorem segments_run (t t' : Nat) : ∃ b c d, Run Appended (initSegmentManager []) (segmentOf t ++ segmentOf t') b ∧
    b.persists = [c, d] ∧ (⟨[], firstPrimary.ip, firstPrimary.port, 65537, t, true⟩ : FullSegment).place = c.place ∧
    (⟨[], firstPrimary.ip, firstPrimary.port, 65537, t', true⟩ : FullSegment).place = d.place := by
  have hdeliver : ∀ t, ∀ b, BackupOk b → ∃ b', Run Appended b (segmentOf t) b' ∧ BackupOk b' := fun t b hok =>
    run_replicate (d := ⟨{ noon with now := t }, firstPrimary, setRecord⟩) hok fits_setRecord 65537
  obtain ⟨b1, h1, hok1⟩ := hdeliver t _ (backupOk_init [])
  obtain ⟨b, h2, -⟩ := hdeliver t' b1 hok1
  have hplaces := ((matches_init []).run (h1.append h2)).places
  rw [List.foldl_append, show initFilling [] = ⟨[], none, [], []⟩ from rfl, segmentOf_filled, segmentOf_filled] at hplaces
  obtain ⟨c, d, hcd⟩ : ∃ c d, b.persists = [c, d] := by
    have hcount := congrArg List.length hplaces
    simp only [List.length_map] at hcount
    exact List.length_eq_two.mp hcount
  rw [hcd] at hplaces
  simp only [List.map_cons, List.map_nil, List.nil_append, List.cons_append, List.cons.injEq] at hplaces
  exact ⟨b, c, d, h1.append h2, hcd, hplaces.1.symm, hplaces.2.1.symm⟩

/-- Two segments fill up, the second one second later. -/
theorem persisted_apart_iff_later : ∃ b, b.persists.length = 2 ∧
    (PersistedApart b ↔ SegmentsApart ((segmentOf 1000 ++ segmentOf 1001).foldl Filling.call (initFilling []))) := by
  obtain ⟨b, c, d, hrun, hpersists, -, -⟩ := segments_run 1000 1001
  exact ⟨b, by rw [hpersists]; rfl, persisted_apart_iff hrun⟩

/-- Both in one second. -/
theorem persisted_over : ¬∀ cwd as b, (as.map fun a : AppendCall => a.os.now).Pairwise (· ≤ ·) →
    Run Appended (initSegmentManager cwd) as b → PersistedApart b := by
  intro h
  obtain ⟨b, c, d, hrun, hpersists, hc, hd⟩ := segments_run 1000 1000
  have htime : ((segmentOf 1000 ++ segmentOf 1000).map fun a => a.os.now).Pairwise (· ≤ ·) := by
    rw [segmentOf, List.replicate_append_replicate, List.map_replicate]
    exact List.pairwise_replicate.mpr (.inr (Nat.le_refl _))
  have hapart := h [] _ b htime hrun
  unfold PersistedApart at hapart
  rw [hpersists] at hapart
  have hplace := hc.symm.trans hd
  have hopened : c.opened = true := (congrArg Prod.fst hc).symm
  simp only [PersistCall.place, Prod.mk.injEq] at hplace
  have hsame := (List.pairwise_cons.mp hapart).1 d List.mem_cons_self hopened (hplace.1 ▸ hopened) hplace.2.1.1 hplace.2.1.2
  simp [File.sameName, hplace.2.2] at hsame

end

end RamCube
