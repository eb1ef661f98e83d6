import Mathlib.Data.List.Forall2
import RamCube.Backup.Batches
import RamCube.Lib.Chain

/-! # Segments in memory (Segment.c)

`appendToSegment` keeps its segments as cells that point to each other: a segment to its
first seglet, to its last one (`p`) and to the next segment, a seglet to its object and to
the next seglet. The cells are modelled as they are, with whatever addresses `calloc`
gives, and hold the segment of `OneSegment` as a chain (`storeTextAt_refines`). So the
number of seglets, the capacity and `p` of every segment are right after every call
(`segments_sound`). Loops over links make `fuel` turns at most. -/
namespace RamCube

abbrev Addr := Nat

/-- A `Seglet`. -/
structure SegletCell where
  length : Nat
  objector : Option Addr
  next : Option Addr
deriving DecidableEq

/-- A `Segment`. -/
structure SegmentCell where
  header : Head
  /-- The tail seglet. -/
  p : Option Addr
  segleter : Option Addr
  next : Option Addr
deriving DecidableEq

/-- A file as it is written: the segment, then each seglet and its object, with the
pointers they hold. -/
structure RawFile where
  dir : Path
  name : Bytes
  segment : SegmentCell
  seglets : List (SegletCell × Object)

structure Memory where
  segments : Addr → Option SegmentCell
  seglets : Addr → Option SegletCell
  objects : Addr → Option Object
  /-- `Manager->used` -/
  used : Bool
  /-- `Manager->segment` -/
  segment : Option Addr
  cwd : Path
  files : List RawFile

/-- `init_SegmentManager`, in directory `cwd`. -/
def memInit (cwd : Path) : Memory where
  segments _ := none
  seglets _ := none
  objects _ := none
  used := false
  segment := none
  cwd := cwd
  files := []

/-- What `calloc` gives for a segment, a seglet and an object. -/
structure Alloc where
  segment : Addr
  seglet : Addr
  object : Addr

/-- Nothing lies there yet. -/
structure Memory.Fresh (m : Memory) (al : Alloc) : Prop where
  segment : m.segments al.segment = none
  seglet : m.seglets al.seglet = none
  object : m.objects al.object = none

/-! ## Storing -/

/-- `createSeglet` -/
def createSegletAt (os : Os) (al : Alloc) (text : Bytes) (m : Memory) : Memory :=
  { m with
    seglets := Function.update m.seglets al.seglet
      (some { length := text.length, objector := some al.object, next := none })
    objects := Function.update m.objects al.object
      (some { avaliable := true, timestamp := os.created, command := text }) }

/-- `createSegment` with the settings each creating branch makes. -/
def createSegmentAt (os : Os) (al : Alloc) (ip : Bytes) (port : Int) (text : Bytes) (m : Memory) : Memory :=
  let m := createSegletAt os al text m
  { m with segments := Function.update m.segments al.segment (some {
      header := { setHead ip port with capacity := MAX_SEGMENT_CAPACITY - text.length }
      p := some al.seglet
      segleter := some al.seglet
      next := none }) }

/-- A new seglet chained behind `p` of the segment at `a`. -/
def chainSegletAt (os : Os) (al : Alloc) (text : Bytes) (a : Addr) (m : Memory) : Option Memory := do
  let currSeg ← m.segments a
  let seglet ← currSeg.p
  let last ← m.seglets seglet
  let m := createSegletAt os al text m
  some { m with
    seglets := Function.update m.seglets seglet (some { last with next := some al.seglet })
    segments := Function.update m.segments a (some { currSeg with
      header := { currSeg.header with capacity := currSeg.header.capacity - text.length }
      p := some al.seglet }) }

/-- `setSegletNum(Manager->segment)` -/
def setSegletNumAt (m : Memory) : Option Memory := do
  let a ← m.segment
  let seg ← m.segments a
  some { m with segments := Function.update m.segments a (some { seg with
    header := { seg.header with segletnum := seg.header.segletnum + 1 } }) }

/-- `getSegment` -/
def findSegmentAt (ip : Bytes) (port : Int) (m : Memory) : Nat → Option Addr → Option (Option Addr)
  | 0, _ => none
  | _ + 1, none => some none
  | fuel + 1, some a => do
    let seg ← m.segments a
    if seg.header.sinAddr == ip && seg.header.sinPort == port then some (some a)
    else findSegmentAt ip port m fuel seg.next

/-- `getLastSegment` -/
def lastSegmentAt (m : Memory) : Nat → Option Addr → Option (Option Addr)
  | 0, _ => none
  | _ + 1, none => some none
  | fuel + 1, some a => do
    let seg ← m.segments a
    lastSegmentAt m fuel seg.next

/-- The first record of a message whose primary has no segment. -/
def createAt (fuel : Nat) (os : Os) (al : Alloc) (ip : Bytes) (port : Int) (text : Bytes) (m : Memory) : Option Memory := do
  let last ← lastSegmentAt m fuel m.segment
  let m := createSegmentAt os al ip port text m
  match last with
  | some last =>
    let currSeg ← m.segments last
    setSegletNumAt { m with segments := Function.update m.segments last (some { currSeg with next := some al.segment }) }
  | none => setSegletNumAt { m with segment := some al.segment }

/-- `appendToSegment` on the first record of a message. -/
def storeFirstAt (fuel : Nat) (os : Os) (al : Alloc) (ip : Bytes) (port : Int) (text : Bytes) (m : Memory) :
    Option Memory :=
  if m.used = false then
    setSegletNumAt { createSegmentAt os al ip port text m with segment := some al.segment, used := true }
  else do
    match ← findSegmentAt ip port m fuel m.segment with
    | none => createAt fuel os al ip port text m
    | some a => (chainSegletAt os al text a m).bind setSegletNumAt

/-- `appendToSegment` on each further record of the same message. -/
def storeNextAt (fuel : Nat) (os : Os) (al : Alloc) (ip : Bytes) (port : Int) (text : Bytes) (m : Memory) :
    Option Memory := do
  let currSeg ← findSegmentAt ip port m fuel m.segment
  let a ← currSeg
  (chainSegletAt os al text a m).bind setSegletNumAt

/-! ## Persisting -/

/-- The seglets from `first` on with their objects, as the loop of `persist` meets them. -/
def segletsAt (fuel : Nat) (m : Memory) (first : Option Addr) : Option (List (SegletCell × Object)) := do
  let cells ← walk m.seglets SegletCell.next fuel first
  cells.mapM fun c => do
    let objector ← c.2.objector
    let object ← m.objects objector
    some (c.2, object)

def RawFile.sameName (f g : RawFile) : Bool := f.dir == g.dir && f.name == g.name

/-- `persist` -/
def persistAt (fuel : Nat) (os : Os) (a : Addr) (m : Memory) : Option Memory := do
  let seg ← m.segments a
  let dir := mkStorage m.cwd (ipPortDir seg.header.sinAddr seg.header.sinPort)
  let name := fileName seg.header.segletnum os.now
  if os.fopen dir name then
    let seglets ← segletsAt fuel m seg.segleter
    let file : RawFile := ⟨dir, name, seg, seglets⟩
    some { m with files := (m.files.filter fun f => !f.sameName file) ++ [file] }
  else some { m with cwd := dir }

/-- `freeSegment`. An object that two seglets point to would be given back twice. -/
def freeSegmentAt (fuel : Nat) (a : Addr) (m : Memory) : Option Memory := do
  let seg ← m.segments a
  let cells ← walk m.seglets SegletCell.next fuel seg.segleter
  if (cells.map fun c => c.2.objector).Nodup then
    some { m with
      segments := Function.update m.segments a none
      seglets := fun x => if x ∈ cells.map Prod.fst then none else m.seglets x
      objects := fun x => if some x ∈ cells.map (fun c => c.2.objector) then none else m.objects x }
  else none

/-- The loop that persists and frees the segments without capacity. -/
def persistLoopAt (fuel : Nat) (os : Os) : Nat → Bool → Option Addr → Memory → Option Memory
  | 0, _, _, _ => none
  | _ + 1, _, none, m => some m
  | turns + 1, flag3, some a, m => do
    let seg ← m.segments a
    if seg.header.capacity < 0 then
      let m ← persistAt fuel os a m
      let m ← freeSegmentAt fuel a m
      persistLoopAt fuel os turns (flag3 && seg.next.isNone) seg.next
        (if flag3 then { m with segment := seg.next } else m)
    else persistLoopAt fuel os turns flag3 seg.next m

/-! ## Messages -/

def storeTextAt (fuel : Nat) (os : Os) (al : Alloc) (ip : Bytes) (port : Int) (isFirst : Bool) (m : Memory) (text : Bytes) :
    Option Memory := do
  let m ← (if isFirst then storeFirstAt else storeNextAt) fuel os al ip port text m
  persistLoopAt fuel os fuel true m.segment m

/-- The strings of a message stored one after the other, each with addresses of its own. -/
def storeTextsAt (fuel : Nat) (os : Os) (ip : Bytes) (port : Int) :
    (Nat → Alloc) → Bool → Memory → List Bytes → Option Memory
  | _, _, m, [] => some m
  | als, isFirst, m, text :: texts => do
    let m ← storeTextAt fuel os (als 0) ip port isFirst m text
    storeTextsAt fuel os ip port (fun i => als (i + 1)) false m texts

/-- `appendToSegment(cont)` -/
def appendToSegmentAt (fuel : Nat) (os : Os) (als : Nat → Alloc) (m : Memory) (cont : Bytes) : Option Memory := do
  let (ip, port, texts) ← messageTexts cont
  storeTextsAt fuel os ip port als true m texts

/-! ## What every segment should have -/

/-- The fields of a segment agree with its seglets. -/
def SegmentSound (m : Memory) (seg : SegmentCell) : Prop :=
  ∃ cells last tail, Chain m.seglets SegletCell.next seg.segleter (cells ++ [(last, tail)]) ∧
    seg.header.segletnum = cells.length + 1 ∧
    seg.header.capacity = MAX_SEGMENT_CAPACITY - (((cells ++ [(last, tail)]).map fun c => c.2.length).sum : Nat) ∧
    0 ≤ seg.header.capacity ∧ seg.p = some last ∧ tail.next = none

/-- So it is with every segment in `Manager`. -/
def SegmentsSound (m : Memory) : Prop :=
  ∃ segs, Chain m.segments SegmentCell.next m.segment segs ∧ ∀ s ∈ segs, SegmentSound m s.2

/-! ## Segments in memory -/

/-- A cell and its object are a seglet. -/
structure SegletAt (m : Memory) (c : SegletCell) (s : Seglet) : Prop where
  length : c.length = s.length
  object : ∃ o, c.objector = some o ∧ m.objects o = some s.objector
  text : s.length = s.objector.command.length

/-- The cells from the first seglet of a segment on are these seglets, and `p` leads to
the last of them. -/
structure CellsAt (m : Memory) (segleter p : Option Addr) (cells : List (Addr × SegletCell)) (lets : List Seglet) :
    Prop where
  chain : Chain m.seglets SegletCell.next segleter cells
  tail : p = cells.getLast?.map Prod.fst
  seglets : List.Forall₂ (fun c s => SegletAt m c.2 s) cells lets
  objects : (cells.map fun c => c.2.objector).Nodup

/-- The cell at `a` is a segment, the last of its list. -/
def SegmentAt (m : Memory) (a : Addr) (s : Segment) : Prop :=
  ∃ cell cells, m.segments a = some cell ∧ cell.header = s.header ∧ cell.next = none ∧
    CellsAt m cell.segleter cell.p cells s.segleter

variable {m m' : Memory} {os : Os} {al : Alloc} {text : Bytes} {segleter p : Option Addr} {cells : List (Addr × SegletCell)}
  {lets : List Seglet} {a : Addr} {s : Segment}

theorem SegletAt.congr {c : SegletCell} {l : Seglet} (h : SegletAt m c l) (hobjects : m'.objects = m.objects) :
    SegletAt m' c l := ⟨h.length, hobjects ▸ h.object, h.text⟩

theorem CellsAt.congr (h : CellsAt m segleter p cells lets) (hseglets : m'.seglets = m.seglets)
    (hobjects : m'.objects = m.objects) : CellsAt m' segleter p cells lets where
  chain := hseglets ▸ h.chain
  tail := h.tail
  seglets := h.seglets.imp fun _ _ hc => hc.congr hobjects
  objects := h.objects

variable (os text) in
/-- An object at a new address is none of those that seglets point to. -/
theorem SegletAt.createSeglet {c : SegletCell} {l : Seglet} (h : SegletAt m c l) (hfresh : m.objects al.object = none) :
    SegletAt (createSegletAt os al text m) c l ∧ c.objector ≠ some al.object := by
  obtain ⟨o, ho, hobj⟩ := h.object
  have hne : o ≠ al.object := by
    rintro rfl
    rw [hfresh] at hobj
    cases hobj
  refine ⟨⟨h.length, ⟨o, ho, ?_⟩, h.text⟩, fun he => hne (Option.some.inj (ho.symm.trans he))⟩
  rw [createSegletAt]
  dsimp only
  rw [Function.update_of_ne hne, hobj]

theorem cellsAt_single (os : Os) (al : Alloc) (text : Bytes) (m : Memory) :
    CellsAt (createSegletAt os al text m) (some al.seglet) (some al.seglet)
      [(al.seglet, { length := text.length, objector := some al.object, next := none })] [textSeglet os text] where
  chain := ⟨rfl, Function.update_self .., rfl⟩
  tail := rfl
  seglets := .cons ⟨rfl, ⟨al.object, rfl, Function.update_self ..⟩, rfl⟩ .nil
  objects := List.nodup_singleton _

theorem forall₂_left {α β : Type} {R : α → β → Prop} {as : List α} {bs : List β} (h : List.Forall₂ R as bs) :
    ∀ a ∈ as, ∃ b, R a b := by
  induction h with
  | nil => exact nofun
  | cons hab _ ih =>
    intro a ha
    obtain rfl | ha := List.mem_cons.mp ha
    · exact ⟨_, hab⟩
    · exact ih a ha

variable (os text) in
/-- A new seglet behind the last. -/
theorem CellsAt.concat (h : CellsAt m segleter p cells lets) (hne : lets ≠ []) (hfresh : m.Fresh al) :
    ∃ q last, p = some q ∧ m.seglets q = some last ∧ ∃ cells',
      CellsAt { createSegletAt os al text m with
        seglets := Function.update (createSegletAt os al text m).seglets q (some { last with next := some al.seglet }) }
        segleter (some al.seglet) cells' (lets ++ [textSeglet os text]) ∧ cells'.length = cells.length + 1 := by
  have hcells : cells ≠ [] := by
    rintro rfl
    obtain rfl : lets = [] := List.forall₂_nil_left_iff.mp h.seglets
    exact hne rfl
  obtain ⟨ds, ⟨q, last⟩, rfl⟩ := (List.eq_nil_or_concat' cells).resolve_left hcells
  obtain ⟨lets', l, rfl⟩ := (List.eq_nil_or_concat' lets).resolve_left hne
  have hp : p = some q := by simpa using h.tail
  have hlast : m.seglets q = some last := h.chain.mem_eq (by simp)
  obtain ⟨hfront, hback⟩ : List.Forall₂ (fun c s => SegletAt m c.2 s) ds lets' ∧ SegletAt m last l := by
    have hlen : ds.length = lets'.length := by
      have := h.seglets.length_eq
      simp only [List.length_append, List.length_singleton] at this
      omega
    have htake := List.forall₂_take ds.length h.seglets
    have hdrop := List.forall₂_drop ds.length h.seglets
    rw [List.take_left, hlen, List.take_left] at htake
    rw [List.drop_left, hlen, List.drop_left] at hdrop
    cases hdrop with
    | cons hc _ => exact ⟨htake, hc⟩
  have hold : ∀ c ∈ ds ++ [(q, last)], c.2.objector ≠ some al.object := by
    intro c hc
    obtain ⟨l, hcl⟩ := forall₂_left h.seglets c hc
    exact (hcl.createSeglet os text hfresh.object).2
  refine ⟨q, last, hp, hlast, ds ++ [(q, { last with next := some al.seglet }),
    (al.seglet, { length := text.length, objector := some al.object, next := none })], ⟨?_, ?_, ?_, ?_⟩, ?_⟩
  · exact h.chain.concat hfresh.seglet rfl rfl
  · simp
  · rw [List.append_assoc, List.singleton_append]
    refine List.rel_append (hfront.imp fun _ _ hc => (hc.createSeglet os text hfresh.object).1.congr rfl)
      (.cons ?_ (.cons ?_ .nil))
    · have hkeep := (hback.createSeglet os text hfresh.object).1
      exact ⟨hkeep.length, hkeep.object, hkeep.text⟩
    · exact ⟨rfl, ⟨al.object, rfl, Function.update_self ..⟩, rfl⟩
  · have hobjects := h.objects
    have hsplit : (ds ++ [(q, { last with next := some al.seglet }),
        (al.seglet, { length := text.length, objector := some al.object, next := none })]).map (fun c : Addr × SegletCell => c.2.objector) =
        (ds ++ [(q, last)]).map (fun c => c.2.objector) ++ [some al.object] := by simp
    rw [hsplit]
    refine List.nodup_append.mpr ⟨hobjects, List.nodup_singleton _, fun o ho o' ho' => ?_⟩
    obtain ⟨c, hc, rfl⟩ := List.mem_map.mp ho
    rw [List.mem_singleton.mp ho']
    exact hold c hc
  · simp

/-! ## The operations on a segment -/

/-- What the operations on segments leave alone. -/
structure SameRest (m m' : Memory) : Prop where
  used : m'.used = m.used
  segment : m'.segment = m.segment
  cwd : m'.cwd = m.cwd
  files : m'.files = m.files

theorem SameRest.trans {m'' : Memory} (h : SameRest m m') (h' : SameRest m' m'') : SameRest m m'' :=
  ⟨h'.used.trans h.used, h'.segment.trans h.segment, h'.cwd.trans h.cwd, h'.files.trans h.files⟩

variable {ip : Bytes} {port : Int} {fuel : Nat}

theorem SegmentAt.congr (h : SegmentAt m a s) (hsegments : m'.segments a = m.segments a) (hseglets : m'.seglets = m.seglets)
    (hobjects : m'.objects = m.objects) : SegmentAt m' a s := by
  obtain ⟨cell, cells, hcell, hheader, hnext, hcells⟩ := h
  exact ⟨cell, cells, hsegments.trans hcell, hheader, hnext, hcells.congr hseglets hobjects⟩

theorem createSegmentAt_at (os : Os) (al : Alloc) (ip : Bytes) (port : Int) (text : Bytes) (m : Memory) :
    SegmentAt (createSegmentAt os al ip port text m) al.segment (createSegment ip port (textSeglet os text)) :=
  ⟨_, _, Function.update_self .., rfl, rfl, (cellsAt_single os al text m).congr rfl rfl⟩

variable (os text) in
theorem chainSegletAt_at (h : SegmentAt m a s) (hne : s.segleter ≠ []) (hfresh : m.Fresh al) :
    ∃ m', chainSegletAt os al text a m = some m' ∧ SegmentAt m' a (chainSeglet (textSeglet os text) s) ∧
      SameRest m m' := by
  obtain ⟨cell, cells, hcell, hheader, hnext, hcells⟩ := h
  obtain ⟨q, last, hp, hlast, cells', hcells', -⟩ := hcells.concat os text hne hfresh
  unfold chainSegletAt
  simp only [hcell, hp, hlast, Option.bind_eq_bind, Option.bind_some]
  refine ⟨_, rfl, ⟨_, cells', Function.update_self .., ?_, hnext, hcells'.congr rfl rfl⟩, rfl, rfl, rfl, rfl⟩
  dsimp only
  rw [hheader]
  rfl

theorem setSegletNumAt_at (h : SegmentAt m a s) (hsegment : m.segment = some a) :
    ∃ m', setSegletNumAt m = some m' ∧ SegmentAt m' a (setSegletNum s) ∧ SameRest m m' := by
  obtain ⟨cell, cells, hcell, hheader, hnext, hcells⟩ := h
  unfold setSegletNumAt
  simp only [hsegment, hcell, Option.bind_eq_bind, Option.bind_some]
  refine ⟨_, rfl, ⟨_, cells, Function.update_self .., ?_, hnext, hcells.congr rfl rfl⟩, rfl, hsegment.symm ▸ rfl, rfl, rfl⟩
  dsimp only
  rw [hheader]
  rfl

theorem findSegmentAt_one (h : SegmentAt m a s) (hfuel : 2 ≤ fuel) :
    findSegmentAt ip port m fuel (some a) = some (if s.isOf ip port then some a else none) := by
  obtain ⟨cell, cells, hcell, hheader, hnext, -⟩ := h
  obtain ⟨n, rfl⟩ : ∃ n, fuel = n + 1 + 1 := ⟨fuel - 2, by omega⟩
  have hof : (cell.header.sinAddr == ip && cell.header.sinPort == port) = s.isOf ip port := by
    rw [hheader]
    rfl
  rw [findSegmentAt, hcell]
  simp only [Option.bind_eq_bind, Option.bind_some, hof, hnext]
  by_cases hs : s.isOf ip port = true
  · rw [if_pos hs, if_pos hs]
  · rw [if_neg hs, if_neg hs, findSegmentAt]

theorem lastSegmentAt_one (h : SegmentAt m a s) (hfuel : 2 ≤ fuel) : lastSegmentAt m fuel (some a) = some none := by
  obtain ⟨cell, cells, hcell, -, hnext, -⟩ := h
  obtain ⟨n, rfl⟩ : ∃ n, fuel = n + 1 + 1 := ⟨fuel - 2, by omega⟩
  simp [lastSegmentAt, hcell, hnext]

/-! ## The cells and the lists -/

/-- A file as bytes and as lists. -/
structure FileAt (f : RawFile) (g : File) : Prop where
  dir : f.dir = g.dir
  name : f.name = g.name
  head : f.segment.header = g.head
  seglets : List.Forall₂ (fun c l => c.1.length = l.length ∧ c.2 = l.objector) f.seglets g.seglets

/-- The memory holds what the backup does. -/
structure MemRefines (m : Memory) (b : Backup) (cur : Option Segment) : Prop where
  used : m.used = b.Manager.used
  none : cur = none → m.segment = none
  some : ∀ s, cur = some s → ∃ a, m.segment = some a ∧ SegmentAt m a s
  cwd : m.cwd = b.cwd
  files : List.Forall₂ FileAt m.files b.disk

variable {b b' : Backup} {cur : Option Segment} {isFirst : Bool}

variable (os al text ip port) in
/-- A record whose primary has no segment gets a new one, which takes the place of any
other. -/
theorem createAt_at (h : MemRefines m b cur) (hfuel : 2 ≤ fuel) :
    ∃ m' a, createAt fuel os al ip port text m = some m' ∧ m'.segment = some a ∧
      SegmentAt m' a (setSegletNum (createSegment ip port (textSeglet os text))) ∧ m'.used = m.used ∧ m'.cwd = m.cwd ∧
      m'.files = m.files := by
  have hlast : lastSegmentAt m fuel m.segment = some none := by
    cases cur with
    | none =>
      obtain ⟨n, rfl⟩ : ∃ n, fuel = n + 1 := ⟨fuel - 1, by omega⟩
      rw [h.none rfl]
      rfl
    | some s =>
      obtain ⟨a, ha, hs⟩ := h.some s rfl
      rw [ha, lastSegmentAt_one hs hfuel]
  have hnew : SegmentAt { createSegmentAt os al ip port text m with segment := some al.segment } al.segment
      (createSegment ip port (textSeglet os text)) := (createSegmentAt_at os al ip port text m).congr rfl rfl rfl
  obtain ⟨m', hcount, hs', hsame⟩ := setSegletNumAt_at hnew rfl
  unfold createAt
  rw [hlast]
  exact ⟨m', al.segment, hcount, hsame.segment, hs', hsame.used, hsame.cwd, hsame.files⟩

variable (os text) in
/-- Storing a record makes the segment of its primary what it is in the lists. -/
theorem store_at (h : MemRefines m b cur) (hone : OneSegment b cur) (hfresh : m.Fresh al) (hfuel : 2 ≤ fuel)
    (hfirst : isFirst = true ∨ ∃ s, cur = some s ∧ s.isOf ip port = true) :
    ∃ m' a, (if isFirst then storeFirstAt else storeNextAt) fuel os al ip port text m = some m' ∧ m'.segment = some a ∧
      SegmentAt m' a (extended cur ip port (textSeglet os text)) ∧ m'.used = true ∧ m'.cwd = m.cwd ∧
      m'.files = m.files := by
  by_cases hof : ∃ s, cur = some s ∧ s.isOf ip port = true
  · obtain ⟨s, rfl, hof⟩ := hof
    obtain ⟨a, ha, hs⟩ := h.some s rfl
    have hext : extended (some s) ip port (textSeglet os text) = setSegletNum (chainSeglet (textSeglet os text) s) := by
      simp [extended, Option.filter, hof]
    have hused : m.used = true := by
      rw [h.used]
      by_contra hno
      have hnull := hone.unused (by simpa using hno)
      rw [hone.list] at hnull
      cases hnull
    obtain ⟨m1, hchain, hs1, hsame1⟩ := chainSegletAt_at os text hs (hone.ok s rfl).1.filled hfresh
    obtain ⟨m2, hcount, hs2, hsame2⟩ := setSegletNumAt_at hs1 (hsame1.segment.trans ha)
    have hsame := hsame1.trans hsame2
    rw [hext]
    refine ⟨m2, a, ?_, hsame.segment.trans ha, hs2, hsame.used.trans hused, hsame.cwd, hsame.files⟩
    have hfind : findSegmentAt ip port m fuel m.segment = some (some a) := by
      rw [ha, findSegmentAt_one hs hfuel, if_pos hof]
    cases isFirst with
    | true => simp [storeFirstAt, hused, hfind, hchain, hcount]
    | false => simp [storeNextAt, hfind, hchain, hcount]
  · obtain rfl : isFirst = true := hfirst.resolve_right hof
    have hext : extended cur ip port (textSeglet os text) = setSegletNum (createSegment ip port (textSeglet os text)) := by
      unfold extended
      split
      · rename_i s hs
        obtain ⟨hcur, hsof⟩ := Option.filter_eq_some_iff.mp hs
        exact absurd ⟨s, hcur, hsof⟩ hof
      · rfl
    rw [hext, if_pos rfl]
    by_cases hused : m.used = false
    · have hnew : SegmentAt { createSegmentAt os al ip port text m with segment := some al.segment, used := true }
          al.segment (createSegment ip port (textSeglet os text)) :=
        (createSegmentAt_at os al ip port text m).congr rfl rfl rfl
      obtain ⟨m', hcount, hs', hsame⟩ := setSegletNumAt_at hnew rfl
      refine ⟨m', al.segment, ?_, hsame.segment, hs', hsame.used, hsame.cwd, hsame.files⟩
      rw [storeFirstAt, if_pos hused, hcount]
    · have hfind : findSegmentAt ip port m fuel m.segment = some none := by
        cases cur with
        | none =>
          obtain ⟨n, rfl⟩ : ∃ n, fuel = n + 1 := ⟨fuel - 1, by omega⟩
          rw [h.none rfl]
          rfl
        | some s =>
          obtain ⟨a, ha, hs⟩ := h.some s rfl
          rw [ha, findSegmentAt_one hs hfuel, if_neg fun hsof => hof ⟨s, rfl, hsof⟩]
      obtain ⟨m', a, hcreate, hsegment, hs', hused', hcwd, hfiles⟩ :=
        createAt_at os al text ip port h hfuel
      refine ⟨m', a, ?_, hsegment, hs', hused'.trans (by simpa using hused), hcwd, hfiles⟩
      rw [storeFirstAt, if_neg hused, hfind]
      exact hcreate

/-! ## Persisting a segment -/

/-- The loop of `persist` finds every object. -/
theorem segletsAt_eq (hchain : Chain m.seglets SegletCell.next segleter cells) (hfuel : cells.length < fuel)
    (hobjects : List.Forall₂ (fun c (l : Seglet) => ∃ o, c.2.objector = some o ∧ m.objects o = some l.objector) cells lets) :
    segletsAt fuel m segleter = some (List.zipWith (fun c l => (c.2, l.objector)) cells lets) := by
  rw [segletsAt, walk_chain hchain hfuel, Option.bind_eq_bind, Option.bind_some]
  clear hchain hfuel
  induction hobjects with
  | nil => rfl
  | cons hobj _ ih =>
    obtain ⟨o, ho, hobject⟩ := hobj
    rw [List.mapM_cons, ih]
    simp [ho, hobject]

theorem raw_seglets (h : List.Forall₂ (fun c s => SegletAt m c.2 s) cells lets) :
    List.Forall₂ (fun c l => c.1.length = l.length ∧ c.2 = l.objector)
      (List.zipWith (fun c l => (c.2, l.objector)) cells lets) lets := by
  induction h with
  | nil => exact .nil
  | cons hc _ ih => exact .cons ⟨hc.length, rfl⟩ ih

variable {turns : Nat}

variable (os) in
theorem persistAt_at (hs : SegmentAt m a s) (hlen : s.segleter.length < fuel) (hcwd : m.cwd = b.cwd)
    (hfiles : List.Forall₂ FileAt m.files b.disk) :
    ∃ m', persistAt fuel os a m = some m' ∧ m'.cwd = (persist os b s).cwd ∧
      List.Forall₂ FileAt m'.files (persist os b s).disk ∧ SegmentAt m' a s ∧ m'.used = m.used ∧ m'.segment = m.segment := by
  have hs' := hs
  obtain ⟨cell, cells, hcell, hheader, hnext, hcells⟩ := hs'
  have hdir : mkStorage m.cwd (ipPortDir cell.header.sinAddr cell.header.sinPort) = (segmentFile os b s).dir := by
    rw [hcwd, hheader]
    rfl
  have hname : fileName cell.header.segletnum os.now = (segmentFile os b s).name := by
    rw [hheader]
    rfl
  unfold persistAt persist
  simp only [hcell, hdir, hname, Option.bind_eq_bind, Option.bind_some]
  by_cases hopen : os.fopen (segmentFile os b s).dir (segmentFile os b s).name = true
  · have hread := segletsAt_eq hcells.chain (hcells.seglets.length_eq ▸ hlen) (hcells.seglets.imp fun _ _ hc => hc.object)
    have hfile : FileAt ⟨(segmentFile os b s).dir, (segmentFile os b s).name, cell,
        List.zipWith (fun c l => (c.2, l.objector)) cells s.segleter⟩ (segmentFile os b s) :=
      ⟨rfl, rfl, hheader, raw_seglets hcells.seglets⟩
    have hothers : List.Forall₂ FileAt
        (m.files.filter fun f => !f.sameName ⟨(segmentFile os b s).dir, (segmentFile os b s).name, cell,
          List.zipWith (fun c l => (c.2, l.objector)) cells s.segleter⟩)
        (b.disk.filter fun f => !f.sameName (segmentFile os b s)) := by
      refine List.rel_filter (fun f g hfg => ?_) hfiles
      simp only [RawFile.sameName, File.sameName, hfg.dir, hfg.name]
    simp only [hopen, if_true, hread, Option.bind_some]
    exact ⟨_, rfl, hcwd, List.rel_append hothers (.cons hfile .nil), hs.congr rfl rfl rfl, rfl, rfl⟩
  · simp only [hopen]
    exact ⟨_, rfl, rfl, hfiles, hs.congr rfl rfl rfl, rfl, rfl⟩

theorem freeSegmentAt_at (hs : SegmentAt m a s) (hlen : s.segleter.length < fuel) :
    ∃ m', freeSegmentAt fuel a m = some m' ∧ SameRest m m' := by
  obtain ⟨cell, cells, hcell, -, -, hcells⟩ := hs
  unfold freeSegmentAt
  simp only [hcell, Option.bind_eq_bind, Option.bind_some]
  rw [walk_chain hcells.chain (hcells.seglets.length_eq ▸ hlen), Option.bind_some, if_pos hcells.objects]
  exact ⟨_, rfl, rfl, rfl, rfl, rfl⟩

variable (os) in
/-- The loop persists and frees the segment if it is full, and leaves it if not. -/
theorem persistLoopAt_one (hs : SegmentAt m a s) (hlen : s.segleter.length < fuel) (hturns : 2 ≤ turns)
    (hused : m.used = true) (hsegment : m.segment = some a) (hcwd : m.cwd = b.cwd)
    (hfiles : List.Forall₂ FileAt m.files b.disk) :
    ∃ m', persistLoopAt fuel os turns true (some a) m = some m' ∧
      MemRefines m' (keepOrPersist os b s) (if s.header.capacity < 0 then none else some s) := by
  obtain ⟨n, rfl⟩ : ∃ n, turns = n + 1 + 1 := ⟨turns - 2, by omega⟩
  have hs' := hs
  obtain ⟨cell, cells, hcell, hheader, hnext, -⟩ := hs'
  have hloop : ∀ flag m', persistLoopAt fuel os (n + 1) flag none m' = some m' := fun _ _ => rfl
  unfold persistLoopAt keepOrPersist
  simp only [hcell, hheader, hnext, Option.bind_eq_bind, Option.bind_some, hloop]
  by_cases hfull : s.header.capacity < 0
  · obtain ⟨m1, hpersist, hcwd1, hfiles1, hs1, hused1, -⟩ := persistAt_at os hs hlen hcwd hfiles
    obtain ⟨m2, hfree, hsame⟩ := freeSegmentAt_at hs1 hlen
    simp only [if_pos hfull, hpersist, hfree, Option.bind_some, if_true]
    exact ⟨_, rfl, hsame.used.trans (hused1.trans hused), fun _ => rfl, nofun, hsame.cwd.trans hcwd1,
      hsame.files.symm ▸ hfiles1⟩
  · simp only [if_neg hfull]
    exact ⟨m, rfl, hused, nofun, fun t ht => ⟨a, hsegment, Option.some.inj ht ▸ hs⟩, hcwd, hfiles⟩

/-! ## A record -/

theorem length_extended (ip : Bytes) (port : Int) (seglet : Seglet) {k : Nat} (hcur : ∀ s ∈ cur, s.segleter.length ≤ k) :
    (extended cur ip port seglet).segleter.length ≤ k + 1 := by
  unfold extended
  split
  · rename_i s hs
    have hlen := hcur s (Option.filter_eq_some_iff.mp hs).1
    simp only [setSegletNum, chainSeglet, setCapacity, List.length_append, List.length_singleton]
    omega
  · simp only [setSegletNum, createSegment, setCapacity, List.length_singleton]
    omega

variable (os text ip port) in
/-- The cells do what the lists do. -/
theorem storeTextAt_refines (h : MemRefines m b cur) (hone : OneSegment b cur) (hfresh : m.Fresh al)
    (hfirst : isFirst = true ∨ ∃ s, cur = some s ∧ s.isOf ip port = true)
    (hlen : ∀ s ∈ cur, s.segleter.length + 2 < fuel) (hfuel : 2 < fuel) :
    ∃ m', storeTextAt fuel os al ip port isFirst m text = some m' ∧
      MemRefines m' (keepOrPersist os b (extended cur ip port (textSeglet os text)))
        (if (extended cur ip port (textSeglet os text)).header.capacity < 0 then none
          else some (extended cur ip port (textSeglet os text))) := by
  obtain ⟨m1, a, hstore, hsegment, hs, hused, hcwd, hfiles⟩ :=
    store_at os text h hone hfresh (show 2 ≤ fuel by omega) hfirst
  have hshort : (extended cur ip port (textSeglet os text)).segleter.length < fuel := by
    have hcur : ∀ s ∈ cur, s.segleter.length ≤ fuel - 3 := fun s hs => by
      have hs := hlen s hs
      omega
    have hext := length_extended ip port (textSeglet os text) hcur
    omega
  obtain ⟨m', hloop, hm'⟩ := persistLoopAt_one os hs hshort (show 2 ≤ fuel by omega) hused hsegment
    (hcwd.trans h.cwd) (hfiles.symm ▸ h.files)
  refine ⟨m', ?_, hm'⟩
  rw [storeTextAt, hstore, Option.bind_eq_bind, Option.bind_some, hsegment, hloop]

theorem messageTexts_message (p : Address) (r : Record) :
    messageTexts (message p r) = if Fits p r then some (p.ip, (p.port : Int), [r.text]) else none := by
  obtain ⟨c, hc, htake⟩ := take_message p r
  unfold messageTexts
  rw [parseIpPort_message]
  by_cases hfit : Fits p r
  · have hlen : r.text.length < 2048 := Nat.lt_of_le_of_lt (Nat.le_add_right _ _) hfit
    have hsplit : r.text ++ [c] = r.line ++ LF :: (r.data ++ LF :: c :: []) := by simp [Record.text]
    have hcut : cutTexts initCut (r.text ++ [c]) = some [r.text] := by
      rw [hsplit, cut_record cutAt_init r.line_ok r.data_ok
        (by rw [Nat.zero_add]; exact hlen)]
      rfl
    simp only [if_pos hfit, Option.bind_eq_bind, Option.bind_some, getIp_text, getPort_text, getCommandLen_message, htake]
    exact hcut ▸ rfl
  · simp [hfit]

/-! ## Runs -/

/-- A call of `appendToSegment` on a record of a primary, with what the system gives. -/
structure RecordCall where
  os : Os
  alloc : Alloc
  primary : Address
  record : Record

def Appends (fuel : Nat) (m : Memory) (c : RecordCall) (m' : Memory) : Prop :=
  m.Fresh c.alloc ∧ appendToSegmentAt fuel c.os (fun _ => c.alloc) m (message c.primary c.record) = some m'

/-- The memory after at most `k` records. -/
structure MemoryOk (k : Nat) (m : Memory) : Prop where
  refines : ∃ b cur, MemRefines m b cur ∧ OneSegment b cur ∧ ∀ s ∈ cur, s.segleter.length ≤ k

theorem memoryOk_init (cwd : Path) : MemoryOk 0 (memInit cwd) :=
  ⟨initSegmentManager cwd, none, ⟨rfl, fun _ => rfl, nofun, rfl, .nil⟩, ⟨rfl, nofun, fun _ => rfl⟩, nofun⟩

variable {c : RecordCall} {k : Nat}

theorem appendToSegmentAt_message (als : Nat → Alloc) (p : Address) (r : Record) :
    appendToSegmentAt fuel os als m (message p r) =
      if Fits p r then storeTextAt fuel os (als 0) p.ip p.port true m r.text else none := by
  rw [appendToSegmentAt, messageTexts_message]
  split
  · simp [storeTextsAt]
  · rfl

/-- A record that fits is stored; with one that does not, `IpPort` is overrun. -/
theorem MemoryOk.call (h : MemoryOk k m) (hfresh : m.Fresh c.alloc) (hfuel : k + 2 < fuel) (hfit : Fits c.primary c.record) :
    ∃ m', Appends fuel m c m' ∧ MemoryOk (k + 1) m' := by
  obtain ⟨b, cur, hm, hone, hlen⟩ := h.refines
  have hshort : ∀ s ∈ cur, s.segleter.length + 2 < fuel := fun s hs => by
    have hs := hlen s hs
    omega
  obtain ⟨m', hstore, hm'⟩ := storeTextAt_refines c.os c.record.text c.primary.ip c.primary.port hm hone hfresh
    (show true = true ∨ _ from .inl rfl) hshort (by omega)
  refine ⟨m', ⟨hfresh, by rw [appendToSegmentAt_message, if_pos hfit, hstore]⟩, ?_⟩
  have htexts := extended_texts c.os c.primary.ip (c.primary.port : Int) c.record.text hone
  by_cases hfull : (extended cur c.primary.ip c.primary.port (textSeglet c.os c.record.text)).header.capacity < 0
  · rw [if_pos hfull] at hm'
    exact ⟨_, none, hm', OneSegment.persist c.os b hfull, nofun⟩
  · rw [if_neg hfull] at hm'
    refine ⟨_, _, hm', OneSegment.keep c.os b htexts.ok (Int.not_lt.mp hfull), fun s hs => ?_⟩
    obtain rfl := Option.some.inj hs
    exact length_extended _ _ _ hlen

theorem MemoryOk.step {m' : Memory} (h : MemoryOk k m) (hfuel : k + 2 < fuel) (hs : Appends fuel m c m') :
    MemoryOk (k + 1) m' := by
  have hfit : Fits c.primary c.record := by
    by_contra hno
    have happend := hs.2
    rw [appendToSegmentAt_message, if_neg hno] at happend
    cases happend
  obtain ⟨m1, h1, hok⟩ := h.call hs.1 hfuel hfit
  exact Option.some.inj (hs.2.symm.trans h1.2) ▸ hok

theorem MemoryOk.run {calls : List RecordCall} {m' : Memory} (h : MemoryOk k m) (hr : Run (Appends fuel) m calls m')
    (hfuel : k + calls.length + 1 < fuel) : MemoryOk (k + calls.length) m' := by
  induction hr generalizing k with
  | nil => exact h
  | @cons _ _ _ _ as hs _ ih =>
    rw [List.length_cons] at hfuel ⊢
    have hsum : k + (as.length + 1) = k + 1 + as.length := by omega
    rw [hsum]
    exact ih (h.step (by omega) hs) (by omega)

theorem sum_lengths (h : List.Forall₂ (fun c s => SegletAt m c.2 s) cells lets) :
    (cells.map fun c => c.2.length).sum = (commands lets).flatten.length := by
  induction h with
  | nil => rfl
  | cons hc _ ih =>
    rw [List.map_cons, List.sum_cons, ih, hc.length, hc.text, commands, commands, List.map_cons, List.flatten_cons,
      List.length_append]

/-- The counters are right in the lists, and the cells hold the lists. -/
theorem SegmentAt.sound {cell : SegmentCell} (h : SegmentAt m a s) (hok : SegmentOk s) (hroom : 0 ≤ s.header.capacity)
    (hcell : m.segments a = some cell) : SegmentSound m cell := by
  obtain ⟨cell', cells, hcell', hheader, -, hcells⟩ := h
  obtain rfl := Option.some.inj (hcell'.symm.trans hcell)
  have hne : cells ≠ [] := by
    rintro rfl
    exact hok.filled (List.forall₂_nil_left_iff.mp hcells.seglets)
  have hlength := hcells.seglets.length_eq
  have hsum := sum_lengths hcells.seglets
  have htail := hcells.tail
  have hchain := hcells.chain
  obtain ⟨front, ⟨last, tail⟩, rfl⟩ := (List.eq_nil_or_concat' cells).resolve_left hne
  refine ⟨front, last, tail, hchain, ?_, ?_, ?_, ?_, hchain.last_link⟩
  · rw [hheader, hok.num, ← hlength, List.length_append, List.length_singleton]
  · rw [hheader, hok.capacity, hsum]
  · rw [hheader]
    exact hroom
  · rw [htail]
    simp

theorem MemoryOk.sound (h : MemoryOk k m) : SegmentsSound m := by
  obtain ⟨b, cur, hm, hone, -⟩ := h.refines
  cases cur with
  | none => exact ⟨[], hm.none rfl, nofun⟩
  | some s =>
    obtain ⟨a, ha, hs⟩ := hm.some s rfl
    obtain ⟨hok, hroom⟩ := hone.ok s rfl
    have hs' := hs
    obtain ⟨cell, cells, hcell, -, hnext, -⟩ := hs'
    refine ⟨[(a, cell)], ⟨ha, hcell, hnext⟩, fun c hc => ?_⟩
    obtain rfl := List.mem_singleton.mp hc
    exact hs.sound hok hroom hcell

/-- In every run of messages that fit, the fields of each segment are right after each
call; the next message is stored if and only if it fits too. -/
theorem segments_sound {cwd : Path} {calls : List RecordCall} {m : Memory} {fuel : Nat}
    (h : Run (Guarded (fun _ c => Fits c.primary c.record) (Appends fuel)) (memInit cwd) calls m)
    (hfuel : calls.length + 2 < fuel) :
    SegmentsSound m ∧ ∀ c, m.Fresh c.alloc →
      ((∃ m', Appends fuel m c m' ∧ SegmentsSound m') ↔ Fits c.primary c.record) := by
  have hok : MemoryOk calls.length m := by
    have hrun := (memoryOk_init cwd).run h.unguard (by omega)
    rwa [Nat.zero_add] at hrun
  refine ⟨hok.sound, fun c hfresh => ⟨?_, fun hfit => ?_⟩⟩
  · rintro ⟨m', happend, -⟩
    by_contra hno
    have hcall := happend.2
    rw [appendToSegmentAt_message, if_neg hno] at hcall
    cases hcall
  · obtain ⟨m', happend, hok'⟩ := hok.call hfresh hfuel hfit
    exact ⟨m', happend, hok'.sound⟩

def setCall : RecordCall := { os := noon, alloc := ⟨0, 0, 0⟩, primary := firstPrimary, record := setRecord }

theorem segments_sound_set : ∃ m, Run (Appends 5) (memInit []) [setCall] m ∧ SegmentsSound m := by
  obtain ⟨m, happend, -⟩ := ((segments_sound (.nil (memInit [])) (show 0 + 2 < 5 by decide)).2 setCall ⟨rfl, rfl, rfl⟩).mpr
    (show Fits firstPrimary setRecord by decide +kernel)
  have hrun : Run (Guarded (fun _ c => Fits c.primary c.record) (Appends 5)) (memInit []) [setCall] m :=
    .single ⟨show Fits firstPrimary setRecord by decide +kernel, happend⟩
  exact ⟨m, hrun.unguard, (segments_sound hrun (by decide)).1⟩

/-- A record of 2047 bytes, which leaves no room for an address. -/
def longRecord : Record where
  line := []
  data := List.replicate 2045 97
  line_ok := nofun
  data_ok b hb := List.eq_of_mem_replicate hb ▸ by decide

theorem segments_stuck : ¬∀ cwd calls m fuel, calls.length + 2 < fuel →
    Run (Guarded (fun _ c => c.record.text.length ≤ 2047) (Appends fuel)) (memInit cwd) calls m →
    ∀ c, c.record.text.length ≤ 2047 → m.Fresh c.alloc → ∃ m', Appends fuel m c m' ∧ SegmentsSound m' := by
  intro h
  have hlen : longRecord.text.length = 2047 := by
    simp only [longRecord, Record.text, List.length_append, List.length_cons, List.length_replicate, List.length_nil]
  obtain ⟨m', happend, -⟩ := h [] [] (memInit []) 5 (by decide) (.nil _)
    { os := noon, alloc := ⟨0, 0, 0⟩, primary := firstPrimary, record := longRecord } (Nat.le_of_eq hlen) ⟨rfl, rfl, rfl⟩
  have hno : ¬Fits firstPrimary longRecord := by
    intro hfit
    have hpos := List.length_pos_of_ne_nil firstPrimary.text_ne_nil
    unfold Fits at hfit
    rw [hlen] at hfit
    omega
  have hcall := happend.2
  rw [appendToSegmentAt_message, if_neg hno] at hcall
  cases hcall

end RamCube
