import RamCube.Backup.Recovery
import RamCube.Backup.SegmentMemory

/-! # Files read back (Segment.c)

`persist` writes the cells of a segment as they are, with the pointers they hold.
`readFile` takes the number of seglets from the name of the file, reads them into new
cells and links these again, so the segment is the one that was written
(`readFile_persist`). `loadToMem` chains the segments of all files of a primary, but
`segmentToString` follows only the first, so its string is that of all the files exactly
if the others hold no text (`loaded_text_iff`). -/
namespace RamCube

/-! ## Reading a file -/

/-- The cells as `calloc` gives them, for what the file does not have. -/
def emptySegletCell : SegletCell := { length := 0, objector := none, next := none }

/-- The next seglet of the file and its object, read into new cells. -/
def readSegletAt (al : Alloc) (raw : Option (SegletCell × Object)) (m : Memory) : Memory :=
  { m with
    seglets := Function.update m.seglets al.seglet
      (some { raw.elim emptySegletCell Prod.fst with objector := some al.object })
    objects := Function.update m.objects al.object (some (raw.elim emptySeglet.objector Prod.snd)) }

/-- The first seglet is linked to `head`, a further one to the seglet before it. -/
def linkSegletAt (head : Addr) (prev : Option Addr) (seglet : Addr) (m : Memory) : Option Memory :=
  match prev with
  | none => do
    let seg ← m.segments head
    some { m with segments := Function.update m.segments head (some { seg with segleter := some seglet }) }
  | some a => do
    let cell ← m.seglets a
    some { m with seglets := Function.update m.seglets a (some { cell with next := some seglet }) }

/-- The loop of `readFile`, with `i` seglets to go. -/
def readSegletsAt (head : Addr) : Nat → Option Addr → List Alloc → List (SegletCell × Object) → Memory → Option Memory
  | 0, _, _, _, m => some m
  | _ + 1, _, [], _, _ => none
  | i + 1, prev, al :: als, raws, m => do
    let m ← linkSegletAt head prev al.seglet (readSegletAt al raws.head? m)
    readSegletsAt head i (some al.seglet) als raws.tail m

def Memory.file (m : Memory) (dir : Path) (name : Bytes) : Option RawFile :=
  m.files.find? fun f => f.dir == dir && f.name == name

/-- `readFile`, which puts the segment at `head` and its seglets at `als`. -/
def readFileAt (head : Addr) (als : List Alloc) (dirName : Path) (fileName : Bytes) (m : Memory) : Option Memory := do
  let file ← m.file dirName fileName
  let len := getSegmentLength fileName
  let m := { m with segments := Function.update m.segments head (some file.segment) }
  if len < 0 then none else readSegletsAt head len.toNat none als file.seglets m

/-! ## What a segment holds -/

/-- A cell and its object have this length, time, flag and command. -/
def LetAt (m : Memory) (c : Addr × SegletCell) (l : Seglet) : Prop :=
  c.2.length = l.length ∧ ∃ o, c.2.objector = some o ∧ m.objects o = some l.objector

/-- The cell at `a` is a segment with this header, and the cells from its `segleter` to a
null pointer are these seglets. -/
def SegmentReads (m : Memory) (a : Addr) (header : Head) (lets : List Seglet) : Prop :=
  ∃ cell cells, m.segments a = some cell ∧ cell.header = header ∧
    Chain m.seglets SegletCell.next cell.segleter cells ∧ List.Forall₂ (LetAt m) cells lets

/-- So does a segment in the manager. -/
theorem SegmentAt.reads {m : Memory} {a : Addr} {s : Segment} (h : SegmentAt m a s) :
    SegmentReads m a s.header s.segleter := by
  obtain ⟨cell, cells, hcell, hheader, -, hcells⟩ := h
  exact ⟨cell, cells, hcell, hheader, hcells.chain, hcells.seglets.imp fun _ _ hc => ⟨hc.length, hc.object⟩⟩

/-- `calloc` gives no address twice. -/
structure Distinct (als : List Alloc) : Prop where
  seglets : (als.map Alloc.seglet).Nodup
  objects : (als.map Alloc.object).Nodup

/-- A seglet of a file. -/
def rawSeglet (r : SegletCell × Object) : Seglet := { length := r.1.length, objector := r.2 }

section

variable {m : Memory} {a head : Addr} {x : SegletCell} {als : List Alloc} {raws : List (SegletCell × Object)}

variable (head) in
/-- Seglets read behind the one at `a`. The last one keeps the link it was written with. -/
theorem readSegletsAt_next (hcell : m.seglets a = some x) (hlen : als.length = raws.length)
    (hseglets : (a :: als.map Alloc.seglet).Nodup) (hobjects : (als.map Alloc.object).Nodup)
    (hlast : raws.getLast?.elim x.next (fun r => r.1.next) = none) :
    ∃ m' next cells, readSegletsAt head raws.length (some a) als raws m = some m' ∧
      Chain m'.seglets SegletCell.next (some a) ((a, { x with next := next }) :: cells) ∧
      List.Forall₂ (LetAt m') cells (raws.map rawSeglet) ∧ m'.segments = m.segments ∧
      (∀ b, b ≠ a → b ∉ als.map Alloc.seglet → m'.seglets b = m.seglets b) ∧
      ∀ o, o ∉ als.map Alloc.object → m'.objects o = m.objects o := by
  induction raws generalizing m a x als with
  | nil =>
    obtain rfl := List.length_eq_zero_iff.mp hlen
    exact ⟨m, x.next, [], rfl, ⟨rfl, hcell, hlast⟩, .nil, rfl, fun _ _ _ => rfl, fun _ _ => rfl⟩
  | cons r raws ih =>
    obtain ⟨al, als, rfl⟩ := List.exists_cons_of_length_eq_add_one hlen
    rw [List.map_cons, List.nodup_cons] at hseglets hobjects
    obtain ⟨ha, hnodup⟩ := hseglets
    have hne : a ≠ al.seglet := fun he => ha (he ▸ List.mem_cons_self)
    have hold : (readSegletAt al (some r) m).seglets a = some x := (Function.update_of_ne hne ..).trans hcell
    let m1 : Memory := { readSegletAt al (some r) m with
      seglets := Function.update (readSegletAt al (some r) m).seglets a (some { x with next := some al.seglet }) }
    have hlink : linkSegletAt head (some a) al.seglet (readSegletAt al (some r) m) = some m1 := by
      rw [linkSegletAt, hold]
      rfl
    have hnew : m1.seglets al.seglet = some { r.1 with objector := some al.object } :=
      (Function.update_of_ne hne.symm ..).trans (Function.update_self ..)
    have hlast' : raws.getLast?.elim r.1.next (fun r => r.1.next) = none := by
      rw [List.getLast?_cons, Option.elim_some] at hlast
      cases hraws : raws.getLast? with
      | none => simpa [hraws] using hlast
      | some r' => simpa [hraws] using hlast
    obtain ⟨m', next, cells, hread, hchain, hlets, hsegments, hframe, hobjs⟩ :=
      ih hnew (Nat.succ.inj hlen) hnodup hobjects.2 hlast'
    refine ⟨m', some al.seglet, (al.seglet, { r.1 with objector := some al.object, next := next }) :: cells, ?_,
      ⟨rfl, ?_, hchain⟩, .cons ⟨rfl, al.object, rfl, ?_⟩ hlets, hsegments, fun b hb hb' => ?_, fun o ho => ?_⟩
    · rw [List.length_cons, readSegletsAt, List.head?_cons, hlink]
      exact hread
    · rw [hframe a hne fun hmem => ha (List.mem_cons_of_mem _ hmem)]
      exact Function.update_self ..
    · rw [hobjs _ hobjects.1]
      exact Function.update_self ..
    · rw [List.map_cons, List.mem_cons, not_or] at hb'
      rw [hframe b hb'.1 hb'.2]
      exact (Function.update_of_ne hb ..).trans (Function.update_of_ne hb'.1 ..)
    · rw [List.map_cons, List.mem_cons, not_or] at ho
      rw [hobjs o ho.2]
      exact Function.update_of_ne ho.1 ..

variable (head) in
/-- A file whose name tells the number of its seglets, and whose links end, is read back
as it is. -/
theorem readFileAt_reads {f : RawFile} {dir : Path} {name : Bytes} (hfile : m.file dir name = some f)
    (hname : getSegmentLength name = f.seglets.length) (hlen : als.length = f.seglets.length) (hals : Distinct als)
    (hempty : f.seglets = [] → f.segment.segleter = none) (hlast : ∀ r ∈ f.seglets.getLast?, r.1.next = none) :
    ∃ m', readFileAt head als dir name m = some m' ∧
      SegmentReads m' head f.segment.header (f.seglets.map rawSeglet) := by
  have hcount : ¬getSegmentLength name < 0 ∧ (getSegmentLength name).toNat = f.seglets.length := by omega
  unfold readFileAt
  rw [hfile, Option.bind_eq_bind, Option.bind_some]
  dsimp only
  rw [if_neg hcount.1, hcount.2]
  cases hraws : f.seglets with
  | nil =>
    refine ⟨_, rfl, f.segment, [], Function.update_self .., rfl, hempty hraws, .nil⟩
  | cons r raws =>
    rw [hraws] at hlen hlast
    obtain ⟨al, als, rfl⟩ := List.exists_cons_of_length_eq_add_one hlen
    have hobjects := List.nodup_cons.mp hals.objects
    let m1 : Memory := { readSegletAt al (some r) m with
      segments := Function.update (Function.update m.segments head (some f.segment)) head
        (some { f.segment with segleter := some al.seglet }) }
    have hlink : linkSegletAt head none al.seglet
        (readSegletAt al (some r) { m with segments := Function.update m.segments head (some f.segment) }) = some m1 := by
      have hhead : (readSegletAt al (some r) { m with segments := Function.update m.segments head (some f.segment) }).segments
          head = some f.segment := Function.update_self ..
      rw [linkSegletAt, hhead]
      rfl
    have hnew : m1.seglets al.seglet = some { r.1 with objector := some al.object } := Function.update_self ..
    have hlast' : raws.getLast?.elim r.1.next (fun r => r.1.next) = none := by
      rw [List.getLast?_cons] at hlast
      cases hraws' : raws.getLast? with
      | none => simpa [hraws'] using hlast
      | some r' => simpa [hraws'] using hlast
    obtain ⟨m', next, cells, hread, hchain, hlets, hsegments, -, hobjs⟩ :=
      readSegletsAt_next head hnew (Nat.succ.inj hlen) hals.seglets hobjects.2 hlast'
    refine ⟨m', ?_, { f.segment with segleter := some al.seglet },
      (al.seglet, { r.1 with objector := some al.object, next := next }) :: cells, ?_, rfl, hchain,
      .cons ⟨rfl, al.object, rfl, ?_⟩ hlets⟩
    · rw [List.length_cons, readSegletsAt, List.head?_cons, hlink]
      exact hread
    · rw [hsegments]
      exact Function.update_self ..
    · rw [hobjs _ hobjects.1]
      exact Function.update_self ..

end

/-! ## Writing and reading -/

/-- The seglets as `persist` writes them. -/
def rawSeglets (cells : List (Addr × SegletCell)) (lets : List Seglet) : List (SegletCell × Object) :=
  List.zipWith (fun c l => (c.2, l.objector)) cells lets

theorem rawSeglets_eq {m : Memory} {cells : List (Addr × SegletCell)} {lets : List Seglet}
    (h : List.Forall₂ (LetAt m) cells lets) :
    (rawSeglets cells lets).map rawSeglet = lets ∧ (rawSeglets cells lets).map Prod.fst = cells.map Prod.snd := by
  induction h with
  | nil => exact ⟨rfl, rfl⟩
  | cons hc _ ih =>
    rw [rawSeglets] at ih ⊢
    rw [List.zipWith_cons_cons, List.map_cons, List.map_cons, List.map_cons, ih.1, ih.2, rawSeglet, hc.1]
    exact ⟨rfl, rfl⟩

/-- The directory of the file that `persist` writes for a segment with this header. -/
def storageDir (m : Memory) (header : Head) : Path := mkStorage m.cwd (ipPortDir header.sinAddr header.sinPort)

/-- A segment whose count is right is read back from its file with the same header and
seglets, whatever happened in memory in between. -/
theorem readFile_persist {m : Memory} {a : Addr} {header : Head} {lets : List Seglet} {os : Os} {fuel : Nat}
    (h : SegmentReads m a header lets) (hnum : header.segletnum = lets.length)
    (hopen : os.fopen (storageDir m header) (fileName header.segletnum os.now) = true) (hfuel : lets.length < fuel) :
    ∃ m1, persistAt fuel os a m = some m1 ∧ ∀ m2 head als,
      m2.file (storageDir m header) (fileName header.segletnum os.now) =
        m1.file (storageDir m header) (fileName header.segletnum os.now) →
      als.length = lets.length → Distinct als →
      ∃ m3, readFileAt head als (storageDir m header) (fileName header.segletnum os.now) m2 = some m3 ∧
        SegmentReads m3 head header lets := by
  obtain ⟨cell, cells, hcell, rfl, hchain, hlets⟩ := h
  have hlength := hlets.length_eq
  obtain ⟨hraws, hfst⟩ := rawSeglets_eq hlets
  let file : RawFile := ⟨storageDir m cell.header, fileName cell.header.segletnum os.now, cell, rawSeglets cells lets⟩
  have hwritten : segletsAt fuel m cell.segleter = some (rawSeglets cells lets) :=
    segletsAt_eq hchain (hlength ▸ hfuel) (hlets.imp fun _ _ hc => hc.2)
  have hpersist : persistAt fuel os a m = some { m with files := (m.files.filter fun f => !f.sameName file) ++ [file] } := by
    unfold persistAt
    rw [hcell, Option.bind_eq_bind, Option.bind_some]
    have hdir : mkStorage m.cwd (ipPortDir cell.header.sinAddr cell.header.sinPort) = storageDir m cell.header := rfl
    simp only [hdir, hopen, if_true, hwritten]
    rfl
  refine ⟨_, hpersist, fun m2 head als hfile hals hdistinct => ?_⟩
  have hfound : m2.file (storageDir m cell.header) (fileName cell.header.segletnum os.now) = some file := by
    have hothers : (m.files.filter fun f => !f.sameName file).find? (fun f => f.dir == storageDir m cell.header &&
        f.name == fileName cell.header.segletnum os.now) = none := by
      rw [List.find?_eq_none]
      intro f hf hsame
      have hno := (List.mem_filter.mp hf).2
      rw [Bool.not_eq_true', RawFile.sameName] at hno
      exact absurd hsame (by rw [hno]; exact Bool.false_ne_true)
    rw [hfile, Memory.file, List.find?_append, hothers, Option.none_or, List.find?_singleton, if_pos (by simp [file])]
  have hnumber : (rawSeglets cells lets).length = lets.length := by
    have hmap := congrArg List.length hraws
    rwa [List.length_map] at hmap
  have hcount : getSegmentLength (fileName cell.header.segletnum os.now) = file.seglets.length := by
    rw [getSegmentLength_fileName, hnum, ← hnumber]
  have hempty : file.seglets = [] → file.segment.segleter = none := by
    intro hnil
    have hcells : cells.map Prod.snd = [] := by rw [← hfst, show rawSeglets cells lets = [] from hnil, List.map_nil]
    rw [List.map_eq_nil_iff.mp hcells] at hchain
    exact hchain
  have hlast : ∀ r ∈ file.seglets.getLast?, r.1.next = none := by
    intro r hr
    have hmem : (cells.map Prod.snd).getLast? = some r.1 := by
      rw [← hfst, List.getLast?_map, show (rawSeglets cells lets).getLast? = some r from hr, Option.map_some]
    rw [List.getLast?_map, Option.map_eq_some_iff] at hmem
    obtain ⟨c, hc, hcr⟩ := hmem
    rw [← hcr]
    exact hchain.getLast_link c hc
  obtain ⟨m3, hread, hreads⟩ :=
    readFileAt_reads head hfound hcount (hals.trans hnumber.symm) hdistinct hempty hlast
  exact ⟨m3, hread, hraws ▸ hreads⟩

def otherRecord : Record :=
  ⟨ascii "set b 0 0 2" ++ [CR], ascii "vw" ++ [CR], by decide +kernel, by decide +kernel⟩

/-- A segment of two records in memory. -/
def heldSegment : Memory := { memInit [] with
  segments := fun a => if a = 0 then some
    { header := { setHead firstPrimary.ip firstPrimary.port with segletnum := 2 }, p := some 6, segleter := some 5, next := none }
    else none
  seglets := fun a =>
    if a = 5 then some { length := setRecord.text.length, objector := some 7, next := some 6 }
    else if a = 6 then some { length := otherRecord.text.length, objector := some 8, next := none } else none
  objects := fun a =>
    if a = 7 then some (textSeglet noon setRecord.text).objector
    else if a = 8 then some (textSeglet noon otherRecord.text).objector else none }

theorem readFile_persist_two : ∃ m1 m3 header, persistAt 3 noon 0 heldSegment = some m1 ∧
    readFileAt 1 [⟨1, 1, 1⟩, ⟨2, 2, 2⟩] (storageDir heldSegment header) (fileName 2 1000) { memInit [] with files := m1.files } =
      some m3 ∧
    SegmentReads m3 1 header [textSeglet noon setRecord.text, textSeglet noon otherRecord.text] := by
  have hreads : SegmentReads heldSegment 0 { setHead firstPrimary.ip firstPrimary.port with segletnum := 2 }
      [textSeglet noon setRecord.text, textSeglet noon otherRecord.text] :=
    ⟨_, [(5, _), (6, _)], rfl, rfl, ⟨rfl, rfl, rfl, rfl, rfl⟩, .cons ⟨rfl, 7, rfl, rfl⟩ (.cons ⟨rfl, 8, rfl, rfl⟩ .nil)⟩
  obtain ⟨m1, hpersist, hback⟩ := readFile_persist hreads rfl (show noon.fopen _ _ = true from rfl) (Nat.lt_succ_self 2)
  obtain ⟨m3, hread, hreads3⟩ := hback { memInit [] with files := m1.files } 1 [⟨1, 1, 1⟩, ⟨2, 2, 2⟩] rfl rfl
    ⟨by simp, by simp⟩
  exact ⟨m1, m3, _, hpersist, hread, hreads3⟩

/-! ## Loading the files of a primary -/

/-- The text of the commands in some files. -/
def filesText (fs : List File) : Bytes := fs.flatMap fun f => (commands f.seglets).flatten

def filesOf (b : Backup) (p : Address) : List File :=
  b.disk.filter fun f => f.dir = mkStorage b.cwd (ipPortDir p.ip p.port)

/-- The files as `persist` writes them: the name has the number of the seglets, and there
is no other of that name. -/
structure DiskOk (disk : List File) : Prop where
  names : ∀ f ∈ disk, ∃ t, f.name = fileName f.seglets.length t
  apart : disk.Pairwise fun f g => f.sameName g = false

theorem DiskOk.keep {b : Backup} {s : Segment} (h : DiskOk b.disk) (hs : SegmentOk s) (os : Os) :
    DiskOk (keepOrPersist os b s).disk := by
  have hpersist : DiskOk (persist os b s).disk := by
    rw [persist]
    dsimp only
    split
    · refine ⟨fun f hf => ?_, List.pairwise_append.mpr ⟨h.apart.filter _, List.pairwise_singleton .., fun f hf g hg => ?_⟩⟩
      · obtain hf | hf := List.mem_append.mp hf
        · exact h.names f (List.mem_of_mem_filter hf)
        · exact ⟨os.now, by rw [List.mem_singleton.mp hf, segmentFile, hs.num]⟩
      · rw [List.mem_singleton.mp hg]
        simpa using (List.mem_filter.mp hf).2
    · exact h
  unfold keepOrPersist
  split
  · exact hpersist
  · exact h

/-- So they are after any calls. -/
theorem diskOk_run {cwd : Path} {calls : List AppendCall} {b : Backup}
    (h : Run Appended (initSegmentManager cwd) calls b) : DiskOk b.disk := by
  have hinv : DiskOk b.disk ∧ ∃ cur, OneSegment b cur := by
    refine h.invariant (I := fun b => DiskOk b.disk ∧ ∃ cur, OneSegment b cur) (fun b a b' hb ha => ?_)
      ⟨⟨nofun, .nil⟩, oneSegment_of_run (.nil _)⟩
    obtain ⟨hdisk, cur, hone⟩ := hb
    unfold Appended at ha
    rw [appendToSegment_eq, Option.bind_eq_some_iff] at ha
    obtain ⟨⟨ip, port, texts⟩, -, ha⟩ := ha
    cases texts with
    | nil => exact Option.some.inj ha ▸ ⟨hdisk, cur, hone⟩
    | cons text texts =>
      obtain ⟨s, hs, rfl⟩ := storeTexts_one hone ha
      refine ⟨hdisk.keep hs.ok a.os, ?_⟩
      by_cases hfull : s.header.capacity < 0
      · exact ⟨none, OneSegment.persist a.os b hfull⟩
      · exact ⟨some s, OneSegment.keep a.os b hs.ok (Int.not_lt.mp hfull)⟩
  exact hinv.1

variable {b : Backup} {p : Address} {ents : List Bytes}

theorem exists_files {fs : List File} {names : List Bytes} (h : names.Perm (fs.map File.name)) :
    ∃ gs : List File, gs.Perm fs ∧ gs.map File.name = names := by
  have hsame : List.Forall₂ (fun name (f : File) => name = f.name) (fs.map File.name) fs :=
    List.forall₂_map_left_iff.mpr (List.forall₂_same.mpr fun _ _ => rfl)
  obtain ⟨gs, hgs, hperm⟩ := List.perm_comp_forall₂ h hsame
  refine ⟨gs, hperm, ?_⟩
  rw [← List.forall₂_map_right_iff, List.forall₂_eq_eq_eq] at hgs
  exact hgs.symm

/-- The entries that `loadToMem` reads are the files, in the order of the directory. -/
theorem lists_files (hdisk : DiskOk b.disk) (hents : Lists ents b p) :
    ∃ fs : List File, fs.Perm (filesOf b p) ∧ fs.map File.name = ents.filter isRam := by
  have hram : ∀ name ∈ (filesOf b p).map File.name, isRam name = true := by
    intro name hname
    obtain ⟨f, hf, rfl⟩ := List.mem_map.mp hname
    obtain ⟨t, ht⟩ := hdisk.names f (List.mem_of_mem_filter hf)
    rw [ht, isRam_fileName]
  have hdots : isRam (ascii ".") = false ∧ isRam (ascii "..") = false := by decide +kernel
  have hperm : (ents.filter isRam).Perm ((ascii "." :: ascii ".." :: (filesOf b p).map File.name).filter isRam) :=
    hents.filter isRam
  rw [List.filter_cons_of_neg (by simp [hdots]), List.filter_cons_of_neg (by simp [hdots]),
    List.filter_eq_self.mpr hram] at hperm
  exact exists_files hperm

/-- A file is found under its name. -/
theorem DiskOk.find (h : DiskOk b.disk) {f : File} (hf : f ∈ b.disk) :
    b.disk.find? (fun g => g.dir == f.dir && g.name == f.name) = some f := by
  obtain ⟨before, after, hsplit⟩ := List.mem_iff_append.mp hf
  have hapart := h.apart
  rw [hsplit] at hapart ⊢
  have hnone : before.find? (fun g => g.dir == f.dir && g.name == f.name) = none := by
    rw [List.find?_eq_none]
    intro g hg hsame
    have hno := (List.pairwise_append.mp hapart).2.2 g hg f List.mem_cons_self
    exact absurd hsame (by rw [← File.sameName, hno]; exact Bool.false_ne_true)
  rw [List.find?_append, hnone, Option.none_or, List.find?_cons_of_pos (by simp)]

/-- Every file is read back whole. -/
theorem loadToMem_files (hdisk : DiskOk b.disk) (fs : List File) (hfs : ∀ f ∈ fs, f ∈ filesOf b p)
    (hnames : fs.map File.name = ents.filter isRam) :
    loadToMem b ents (ipPortDir p.ip p.port) =
      some (fs.map fun f => { header := f.head, segleter := f.seglets, dangling := false }) := by
  rw [loadToMem, ← hnames]
  clear hnames
  induction fs with
  | nil => rfl
  | cons f fs ih =>
    obtain ⟨hf, hrest⟩ := List.forall_mem_cons.mp hfs
    obtain ⟨hmem, hdir⟩ := List.mem_filter.mp hf
    obtain ⟨t, ht⟩ := hdisk.names f hmem
    have hfind := hdisk.find hmem
    rw [of_decide_eq_true hdir] at hfind
    rw [List.map_cons, List.mapM_cons, readFile_whole ht hfind, ih hrest]
    rfl

/-- The string is that of the first file. -/
theorem loaded_text (hdisk : DiskOk b.disk) (hents : Lists ents b p) (hne : filesOf b p ≠ []) :
    ∃ f rest, (f :: rest).Perm (filesOf b p) ∧ (f :: rest).map File.name = ents.filter isRam ∧
      (loadToMem b ents (ipPortDir p.ip p.port)).bind segmentToString = some (commands f.seglets).flatten := by
  obtain ⟨fs, hperm, hnames⟩ := lists_files hdisk hents
  obtain ⟨f, rest, rfl⟩ := List.exists_cons_of_ne_nil fun hnil : fs = [] => hne (List.nil_perm.mp (hnil ▸ hperm))
  refine ⟨f, rest, hperm, hnames, ?_⟩
  rw [loadToMem_files hdisk _ (fun g hg => hperm.mem_iff.mp hg) hnames]
  rfl

/-- The string is the commands of all the files, in the order of the directory, if and only
if the files after the first have no text. -/
theorem loaded_text_iff (hdisk : DiskOk b.disk) (hents : Lists ents b p) (hne : filesOf b p ≠ []) :
    ∃ f rest, (f :: rest).Perm (filesOf b p) ∧ (f :: rest).map File.name = ents.filter isRam ∧
      ((loadToMem b ents (ipPortDir p.ip p.port)).bind segmentToString = some (filesText (f :: rest)) ↔
        filesText rest = []) := by
  obtain ⟨f, rest, hperm, hnames, htext⟩ := loaded_text hdisk hents hne
  refine ⟨f, rest, hperm, hnames, ?_⟩
  rw [htext, Option.some.injEq, filesText, List.flatMap_cons, List.self_eq_append_right]
  rfl

/-- The records of a full segment. -/
def fullSeglets : List Seglet := List.replicate 65537 (textSeglet noon setRecord.text)

/-- The file of a segment filled at second `t`. -/
def fullFile (t : Nat) : File where
  dir := mkStorage [] (ipPortDir firstPrimary.ip firstPrimary.port)
  name := fileName 65537 t
  head := { setHead firstPrimary.ip firstPrimary.port with segletnum := 65537, capacity := MAX_SEGMENT_CAPACITY - 65537 * 16 }
  seglets := fullSeglets

/-- A backup with these files. -/
def filesBackup (fs : List File) : Backup := { initSegmentManager [] with disk := fs }

theorem fullSeglets_text : (commands fullSeglets).flatten ≠ [] := by
  intro hnil
  have hmem : textSeglet noon setRecord.text ∈ fullSeglets := List.mem_replicate.mpr ⟨by decide, rfl⟩
  have hempty : setRecord.text = [] := List.flatten_eq_nil_iff.mp hnil _ (List.mem_map_of_mem hmem)
  simp [Record.text] at hempty

theorem fullFile_name (t : Nat) : (fullFile t).name = fileName (fullFile t).seglets.length t := by
  rw [fullFile, fullSeglets, List.length_replicate]

theorem filesOf_filesBackup (ts : List Nat) :
    filesOf (filesBackup (ts.map fullFile)) firstPrimary = ts.map fullFile := by
  refine List.filter_eq_self.mpr fun f hf => ?_
  obtain ⟨t, -, rfl⟩ := List.mem_map.mp hf
  exact decide_eq_true rfl

theorem diskOk_fullFiles {ts : List Nat} (hts : ts.Nodup) : DiskOk (filesBackup (ts.map fullFile)).disk where
  names f hf := by
    obtain ⟨t, -, rfl⟩ := List.mem_map.mp hf
    exact ⟨t, fullFile_name t⟩
  apart := by
    rw [filesBackup, List.pairwise_map]
    refine hts.imp fun {t u} htu => ?_
    have hname : ¬(fullFile t).name = (fullFile u).name := fun he => htu (fileName_inj he).2
    simp [File.sameName, hname]

theorem loaded_text_iff_one :
    (loadToMem (filesBackup [fullFile 1000]) [ascii "..", fileName 65537 1000, ascii "."]
        (ipPortDir firstPrimary.ip firstPrimary.port)).bind segmentToString = some (filesText [fullFile 1000]) := by
  have hfiles : filesOf (filesBackup [fullFile 1000]) firstPrimary = [fullFile 1000] := filesOf_filesBackup [1000]
  have hents : Lists [ascii "..", fileName 65537 1000, ascii "."] (filesBackup [fullFile 1000]) firstPrimary := by
    rw [Lists, ← filesOf, hfiles]
    exact List.perm_append_singleton (ascii ".") [ascii "..", fileName 65537 1000]
  obtain ⟨f, rest, hperm, -, htext⟩ := loaded_text_iff (diskOk_fullFiles (List.nodup_singleton 1000)) hents
    (by rw [List.map_singleton, hfiles]; exact List.cons_ne_nil _ _)
  rw [List.map_singleton, hfiles] at hperm
  have hone := List.perm_singleton.mp hperm
  rw [(List.cons.inj hone).2, (List.cons.inj hone).1] at htext
  exact htext.mpr rfl

/-- Of two full segments only the first is in the string. -/
theorem loaded_text_short : ¬∀ b p ents, DiskOk b.disk → Lists ents b p → filesOf b p ≠ [] →
    ∀ fs : List File, fs.Perm (filesOf b p) → fs.map File.name = ents.filter isRam →
      (loadToMem b ents (ipPortDir p.ip p.port)).bind segmentToString = some (filesText fs) := by
  intro h
  let b := filesBackup ([1000, 2000].map fullFile)
  have hdisk : DiskOk b.disk := diskOk_fullFiles (by decide)
  have hents : Lists (ascii "." :: ascii ".." :: (filesOf b firstPrimary).map File.name) b firstPrimary := .refl _
  have hfiles : filesOf b firstPrimary = [fullFile 1000, fullFile 2000] := filesOf_filesBackup [1000, 2000]
  have hne : filesOf b firstPrimary ≠ [] := by
    rw [hfiles]
    exact List.cons_ne_nil _ _
  obtain ⟨f, rest, hperm, hnames, htext⟩ := loaded_text hdisk hents hne
  have hall := h b firstPrimary _ hdisk hents hne (f :: rest) hperm hnames
  rw [htext, Option.some.injEq, filesText, List.flatMap_cons, List.self_eq_append_right] at hall
  rw [hfiles] at hperm
  obtain ⟨g, rfl⟩ : ∃ g, rest = [g] := by
    have hlen := hperm.length_eq
    simp only [List.length_cons, List.length_nil, Nat.add_right_cancel_iff] at hlen
    exact List.length_eq_one_iff.mp hlen
  have hg : g = fullFile 1000 ∨ g = fullFile 2000 := by
    have hmem := hperm.mem_iff.mp (List.mem_cons_of_mem f (List.mem_singleton_self g))
    simpa using hmem
  refine fullSeglets_text ?_
  obtain rfl | rfl := hg <;>
  · rw [List.flatMap_singleton] at hall
    exact hall

end RamCube
