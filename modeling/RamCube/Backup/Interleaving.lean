import RamCube.Lib.Run
import RamCube.Backup.Message

/-! # Messages of several primaries

What a backup holds of a primary is what it has persisted and what its segment in the
manager still holds. A message of a primary whose segment the manager has, or that
finds none there, adds its record to this and takes nothing from another primary; a
message of any other primary puts its own segment in the place of the one there. -/
namespace RamCube

/-! ## What a backup holds -/

def SegmentPtr.segments : SegmentPtr → List Segment
  | .null | .freed => []
  | .seg s next => s :: next.segments

def commands (seglets : List Seglet) : List Bytes := seglets.map fun let_ => let_.objector.command

/-- The records of the files of a primary, in the order the files were written. -/
def persistedOf (b : Backup) (p : Address) : List Bytes :=
  (b.disk.filter fun f => f.head.sinAddr == p.ip && f.head.sinPort == (p.port : Int)).flatMap fun f =>
    commands f.seglets

/-- The records in the segment of a primary. -/
def heldOf (b : Backup) (p : Address) : List Bytes :=
  (b.Manager.segment.segments.filter fun s => s.isOf p.ip p.port).flatMap fun s => commands s.segleter

/-- A message, with what the system answers while it is handled. -/
structure Delivery where
  os : Os
  primary : Address
  record : Record

def Delivered (b : Backup) (d : Delivery) (b' : Backup) : Prop :=
  appendToSegment d.os b (message d.primary d.record) = some b'

/-- The records received from a primary. -/
def receivedFrom (p : Address) (ds : List Delivery) : List Bytes :=
  (ds.filter fun d => d.primary = p).map fun d => d.record.text

/-- Every call of `persist` made so far opened a new file. -/
def PersistsOk (b : Backup) : Prop := ∀ call ∈ b.persists, call.opened = true ∧ call.fresh = true

/-- The manager has no segment but that of this primary. -/
def OwnSegment (b : Backup) (p : Address) : Prop :=
  ∀ s ∈ b.Manager.segment.segments, s.isOf p.ip p.port = true

def Accepts (b : Backup) (d : Delivery) : Prop := Fits d.primary d.record ∧ OwnSegment b d.primary

/-! ## One segment at a time -/

def SegmentPtr.ofOption : Option Segment → SegmentPtr
  | none => .null
  | some s => .seg s .null

/-- The counters of a segment agree with its seglets. -/
structure SegmentOk (s : Segment) : Prop where
  num : s.header.segletnum = s.segleter.length
  capacity : s.header.capacity = MAX_SEGMENT_CAPACITY - ((commands s.segleter).flatten.length : Nat)
  filled : s.segleter ≠ []

/-- The manager has at most one segment; this is of some primary and has room. -/
structure BackupOk (b : Backup) : Prop where
  list : ∃ cur, b.Manager.segment = .ofOption cur ∧
    ∀ s ∈ cur, SegmentOk s ∧ 0 ≤ s.header.capacity
  unused : b.Manager.used = false → b.Manager.segment = .null
  owned : ∀ s ∈ b.Manager.segment.segments, ∃ q : Address, s.isOf q.ip q.port = true

theorem backupOk_init (cwd : Path) : BackupOk (initSegmentManager cwd) where
  list := ⟨none, rfl, nofun⟩
  unused _ := rfl
  owned := nofun

/-- The segment that a record goes to: the current one if it is of this address, else a
new one. -/
def extended (cur : Option Segment) (ip : Bytes) (port : Int) (seglet : Seglet) : Segment :=
  match cur.filter fun s => s.isOf ip port with
  | some s => setSegletNum (chainSeglet seglet s)
  | none => setSegletNum (createSegment ip port seglet)

@[simp]
theorem recordSeglet_command (os : Os) (r : Record) : (recordSeglet os r).objector.command = r.text := rfl

section

variable {cur : Option Segment} {ip : Bytes} {port : Int} {seglet : Seglet} {os : Os}

theorem storeFirst_one {Manager : SegmentManager} (hlist : Manager.segment = .ofOption cur)
    (hunused : Manager.used = false → Manager.segment = .null) :
    storeFirst ip port seglet Manager =
      some { used := true, segment := .ofOption (some (extended cur ip port seglet)) } := by
  obtain ⟨used, segment⟩ := Manager
  simp only at hlist hunused
  subst hlist
  cases used with
  | false =>
    have hnull := hunused rfl
    cases cur with
    | none => rfl
    | some s => simp [SegmentPtr.ofOption] at hnull
  | true =>
    cases cur with
    | none => rfl
    | some s =>
      by_cases hs : s.isOf ip port = true
      · simp [storeFirst, SegmentPtr.ofOption, getSegment, hs, addSeglet, SegmentPtr.update, extended, Option.filter]
      · simp [storeFirst, SegmentPtr.ofOption, getSegment, getLastSegment, hs, extended, Option.filter]

/-- With its segment there, a further record is stored as a first one is. -/
theorem storeNext_one {Manager : SegmentManager} {s : Segment} (hlist : Manager.segment = .ofOption (some s))
    (hs : s.isOf ip port = true) : storeNext ip port seglet Manager =
      some { Manager with segment := .ofOption (some (extended (some s) ip port seglet)) } := by
  obtain ⟨used, segment⟩ := Manager
  simp only at hlist
  subst hlist
  simp [storeNext, SegmentPtr.ofOption, getSegment, hs, addSeglet, SegmentPtr.update, extended, Option.filter]

/-- Without it there is none to follow. -/
theorem storeNext_none {Manager : SegmentManager} (hlist : Manager.segment = .ofOption cur)
    (hs : ∀ s ∈ cur, s.isOf ip port = false) : storeNext ip port seglet Manager = none := by
  cases cur with
  | none => simp [storeNext, hlist, SegmentPtr.ofOption, getSegment]
  | some s => simp [storeNext, hlist, SegmentPtr.ofOption, getSegment, hs s rfl]

@[simp]
theorem persist_Manager (os : Os) (b : Backup) (s : Segment) : (persist os b s).Manager = b.Manager := rfl

theorem persistFull_one {b : Backup} {s : Segment} (h : b.Manager.segment = .ofOption (some s)) :
    persistFull os b = some (if s.header.capacity < 0 then
      { persist os b s with Manager := { b.Manager with segment := .null } } else b) := by
  unfold persistFull
  rw [h]
  by_cases hc : s.header.capacity < 0
  · simp [SegmentPtr.ofOption, persistLoop, hc]
  · simp only [SegmentPtr.ofOption, persistLoop, if_neg hc]
    obtain ⟨⟨used, segment⟩, cwd, disk, calls⟩ := b
    simp only at h
    subst h
    rfl

@[simp]
theorem extended_addr : (extended cur ip port seglet).header.sinAddr = ip := by
  unfold extended
  split
  · rename_i s hs
    have : s.isOf ip port = true := (Option.filter_eq_some_iff.mp hs).2
    simp only [Segment.isOf, Bool.and_eq_true, beq_iff_eq] at this
    exact this.1
  · rfl

@[simp]
theorem extended_port : (extended cur ip port seglet).header.sinPort = port := by
  unfold extended
  split
  · rename_i s hs
    have : s.isOf ip port = true := (Option.filter_eq_some_iff.mp hs).2
    simp only [Segment.isOf, Bool.and_eq_true, beq_iff_eq] at this
    exact this.2
  · rfl

theorem extended_isOf (p q : Address) :
    (extended cur p.ip p.port seglet).isOf q.ip q.port = decide (p = q) := by
  obtain ⟨ip, port, _, _, _, _, _⟩ := p
  obtain ⟨ip', port', _, _, _, _, _⟩ := q
  by_cases hip : ip = ip' <;> by_cases hport : port = port' <;> simp [Segment.isOf, hip, hport]

/-- The records of the segment: those it had, and the new one. -/
theorem extended_commands :
    commands (extended cur ip port seglet).segleter =
      (cur.filter fun s => s.isOf ip port).elim [] (fun s => commands s.segleter) ++ [seglet.objector.command] := by
  unfold extended
  split
  · rename_i s hs
    simp [hs, commands, setSegletNum, chainSeglet, setCapacity]
  · rename_i hs
    simp [hs, commands, setSegletNum, createSegment, setCapacity]

theorem SegmentOk.extended (hcur : ∀ s ∈ cur, SegmentOk s ∧ 0 ≤ s.header.capacity)
    (hlen : seglet.length = seglet.objector.command.length) : SegmentOk (extended cur ip port seglet) := by
  unfold RamCube.extended
  split
  · rename_i s hs
    obtain ⟨hok, _⟩ := hcur s (Option.filter_eq_some_iff.mp hs).1
    constructor
    · simp [setSegletNum, chainSeglet, setCapacity, hok.num]
    · simp [setSegletNum, chainSeglet, setCapacity, hok.capacity, commands, hlen]
      omega
    · simp [setSegletNum, chainSeglet, setCapacity]
  · constructor
    · simp [setSegletNum, createSegment, setCapacity, setHead]
    · simp [setSegletNum, createSegment, setCapacity, setHead, commands, hlen]
    · simp [setSegletNum, createSegment, setCapacity]

end

/-! ## One message -/

/-- What a message does: its record goes to a segment, and this to a file when it is full. -/
theorem Delivered.cases {b b' : Backup} {d : Delivery} (hok : BackupOk b) (h : Delivered b d b') :
    Fits d.primary d.record ∧ ∃ cur s, b.Manager.segment = .ofOption cur ∧
      (∀ s ∈ cur, SegmentOk s ∧ 0 ≤ s.header.capacity) ∧
      s = extended cur d.primary.ip d.primary.port (recordSeglet d.os d.record) ∧
      (0 ≤ s.header.capacity ∧ b' = { b with Manager := { used := true, segment := .seg s .null } } ∨
        s.header.capacity < 0 ∧
          b' = { persist d.os b s with Manager := { used := true, segment := .null } }) := by
  obtain ⟨cur, hlist, hcur⟩ := hok.list
  unfold Delivered at h
  rw [appendToSegment_message] at h
  by_cases hfit : Fits d.primary d.record
  · rw [if_pos hfit, storeFirst_one hlist hok.unused, Option.bind_some, persistFull_one rfl] at h
    refine ⟨hfit, cur, _, hlist, hcur, rfl, ?_⟩
    by_cases hfull :
        (extended cur d.primary.ip d.primary.port (recordSeglet d.os d.record)).header.capacity < 0
    · rw [if_pos hfull] at h
      exact .inr ⟨hfull, (Option.some.inj h).symm⟩
    · rw [if_neg hfull] at h
      exact .inl ⟨by omega, (Option.some.inj h).symm⟩
  · simp [hfit] at h

theorem delivered_of_fits {b : Backup} {d : Delivery} (hok : BackupOk b)
    (hfit : Fits d.primary d.record) : ∃ b', Delivered b d b' := by
  obtain ⟨cur, hlist, _⟩ := hok.list
  unfold Delivered
  rw [appendToSegment_message, if_pos hfit, storeFirst_one hlist hok.unused, Option.bind_some,
    persistFull_one rfl]
  exact ⟨_, rfl⟩

theorem BackupOk.step {b b' : Backup} {d : Delivery} (hok : BackupOk b) (h : Delivered b d b') :
    BackupOk b' := by
  obtain ⟨_, cur, s, _, hcur, rfl, ⟨hroom, rfl⟩ | ⟨_, rfl⟩⟩ := h.cases hok
  · refine ⟨⟨some _, rfl, fun s hs => Option.some.inj hs ▸ ⟨.extended hcur rfl, hroom⟩⟩, nofun, ?_⟩
    intro s hs
    rw [List.mem_singleton.mp hs]
    exact ⟨d.primary, by simp [extended_isOf]⟩
  · exact ⟨⟨none, rfl, nofun⟩, nofun, nofun⟩

theorem Delivered.persists {b b' : Backup} {d : Delivery} (hok : BackupOk b) (h : Delivered b d b') :
    b.persists <+: b'.persists := by
  obtain ⟨_, cur, s, _, _, rfl, ⟨_, rfl⟩ | ⟨_, rfl⟩⟩ := h.cases hok
  · exact List.prefix_refl _
  · exact List.prefix_append _ _

/-- A call of `persist` that opened a new file added it to the disk. -/
theorem persist_disk {os : Os} {b : Backup} {s : Segment} (h : PersistsOk (persist os b s)) :
    (persist os b s).disk = b.disk ++ [segmentFile os b s] := by
  obtain ⟨hopen, hfresh⟩ := h _ (List.mem_append_right _ (List.mem_singleton_self _))
  simp only [beq_iff_eq, List.length_filter_eq_length_iff] at hopen hfresh
  simp only [persist, hopen, if_true, List.filter_eq_self.mpr hfresh]

theorem heldOf_one {b : Backup} {cur : Option Segment} (hlist : b.Manager.segment = .ofOption cur) (q : Address) :
    heldOf b q = (cur.filter fun s => s.isOf q.ip q.port).elim [] fun s => commands s.segleter := by
  unfold heldOf
  rw [hlist]
  cases cur with
  | none => rfl
  | some s =>
    cases hs : s.isOf q.ip q.port <;>
      simp [SegmentPtr.ofOption, SegmentPtr.segments, Option.filter, hs]

/-- What the backup holds of a primary after a message, in terms of before. -/
theorem Delivered.held {b b' : Backup} {d : Delivery} (hok : BackupOk b) (h : Delivered b d b')
    (hgood : PersistsOk b') (q : Address) :
    persistedOf b' q ++ heldOf b' q = persistedOf b q ++
      if d.primary = q then heldOf b q ++ [d.record.text] else [] := by
  obtain ⟨_, cur, s, hlist, _, rfl, hb⟩ := h.cases hok
  have hheld := heldOf_one hlist q
  obtain ⟨_, rfl⟩ | ⟨_, rfl⟩ := hb
  · have hnew : heldOf { b with Manager := { used := true, segment := .seg (extended cur d.primary.ip
        d.primary.port (recordSeglet d.os d.record)) .null } } q =
          if d.primary = q then heldOf b q ++ [d.record.text] else [] := by
      rw [hheld]
      simp only [heldOf, SegmentPtr.segments, List.filter_cons, extended_isOf, decide_eq_true_eq, List.filter_nil]
      split
      · rename_i hq
        subst hq
        simp [extended_commands]
      · rfl
    rw [hnew]
    rfl
  · have hdisk : (persist d.os b (extended cur d.primary.ip d.primary.port
        (recordSeglet d.os d.record))).disk = _ := persist_disk hgood
    have hnone : heldOf { persist d.os b (extended cur d.primary.ip d.primary.port
        (recordSeglet d.os d.record)) with Manager := { used := true, segment := .null } } q = [] := rfl
    have hof : (extended cur d.primary.ip d.primary.port (recordSeglet d.os d.record)).isOf q.ip q.port = _ :=
      extended_isOf d.primary q
    rw [hnone, List.append_nil]
    simp only [Segment.isOf] at hof
    simp only [persistedOf, hdisk, List.filter_append, List.flatMap_append, List.filter_cons,
      List.filter_nil, segmentFile, hof]
    congr 1
    by_cases hq : d.primary = q
    · subst hq
      simp [extended_commands, hheld]
    · simp [hq]

/-! ## Runs -/

theorem BackupOk.run {b b' : Backup} {ds : List Delivery} (h : Run Delivered b ds b') (hok : BackupOk b) :
    BackupOk b' :=
  h.invariant (fun _ _ _ hi hs => hi.step hs) hok

theorem run_persists {b b' : Backup} {ds : List Delivery} (h : Run Delivered b ds b') (hok : BackupOk b) :
    b.persists <+: b'.persists := by
  induction h with
  | nil => exact List.prefix_refl _
  | cons hs _ ih => exact (hs.persists hok).trans (ih (hok.step hs))

theorem PersistsOk.before {b b' : Backup} {ds : List Delivery} (h : Run Delivered b ds b') (hok : BackupOk b)
    (hgood : PersistsOk b') : PersistsOk b :=
  fun call hc => hgood call ((run_persists h hok).subset hc)

/-- The records of a primary that the backup holds. -/
def recordsOf (b : Backup) (q : Address) : List Bytes := persistedOf b q ++ heldOf b q

theorem heldOf_eq_nil {b : Backup} {p q : Address} (hown : OwnSegment b p) (hne : p ≠ q) : heldOf b q = [] := by
  unfold heldOf
  rw [List.filter_eq_nil_iff.mpr, List.flatMap_nil]
  intro s hs hq
  have hp := hown s hs
  simp only [Segment.isOf, Bool.and_eq_true, beq_iff_eq] at hp hq
  obtain ⟨ip, port, _, _, _, _, _⟩ := p
  obtain ⟨ip', port', _, _, _, _, _⟩ := q
  simp only at hp hq
  apply hne
  simp only [Address.mk.injEq]
  exact ⟨hp.1.symm.trans hq.1, by omega⟩

theorem receivedFrom_cons (q : Address) (d : Delivery) (ds : List Delivery) :
    receivedFrom q (d :: ds) = receivedFrom q [d] ++ receivedFrom q ds := by
  by_cases hq : d.primary = q <;> simp [receivedFrom, hq]

/-- A message that finds no foreign segment adds its record. -/
theorem Delivered.adds {b b' : Backup} {d : Delivery} (hok : BackupOk b) (hown : OwnSegment b d.primary)
    (h : Delivered b d b') (hgood : PersistsOk b') (q : Address) :
    recordsOf b' q = recordsOf b q ++ receivedFrom q [d] := by
  unfold recordsOf
  rw [h.held hok hgood q]
  by_cases hq : d.primary = q
  · simp [hq, receivedFrom]
  · simp [hq, receivedFrom, heldOf_eq_nil hown hq]

theorem Delivered.length_le {b b' : Backup} {d : Delivery} (hok : BackupOk b) (h : Delivered b d b')
    (hgood : PersistsOk b') (q : Address) :
    (recordsOf b' q).length ≤ (recordsOf b q).length + (receivedFrom q [d]).length := by
  unfold recordsOf
  rw [h.held hok hgood q]
  by_cases hq : d.primary = q <;> simp [hq, receivedFrom, Nat.add_assoc]

/-- A message that finds the segment of another primary drops the records in it. -/
theorem Delivered.drops {b b' : Backup} {d : Delivery} (hok : BackupOk b) (h : Delivered b d b')
    (hgood : PersistsOk b') {s : Segment} (hs : s ∈ b.Manager.segment.segments) {q : Address}
    (hq : s.isOf q.ip q.port = true) (hne : d.primary ≠ q) :
    (recordsOf b' q).length < (recordsOf b q).length + (receivedFrom q [d]).length := by
  obtain ⟨cur, hlist, hcur⟩ := hok.list
  have hheld : heldOf b q ≠ [] := by
    cases cur with
    | none => simp [hlist, SegmentPtr.ofOption, SegmentPtr.segments] at hs
    | some t =>
      have hst : s = t := by simpa [hlist, SegmentPtr.ofOption, SegmentPtr.segments] using hs
      have hfilled := (hcur t rfl).1.filled
      subst hst
      simpa [heldOf, hlist, SegmentPtr.ofOption, SegmentPtr.segments, hq, commands] using hfilled
  have hpos := List.length_pos_iff.mpr hheld
  unfold recordsOf
  rw [h.held hok hgood q]
  simp only [hne, if_false, List.append_nil, List.length_append]
  omega

theorem run_adds {b b' : Backup} {ds : List Delivery} (h : Run (Guarded Accepts Delivered) b ds b')
    (hok : BackupOk b) (hgood : PersistsOk b') (q : Address) :
    recordsOf b' q = recordsOf b q ++ receivedFrom q ds := by
  induction h with
  | nil => simp [receivedFrom]
  | cons hs hr ih =>
    obtain ⟨hacc, hd⟩ := hs
    have hok' := hok.step hd
    rw [ih hok' hgood, hd.adds hok hacc.2 (hgood.before hr.unguard hok') q, List.append_assoc,
      ← receivedFrom_cons]

theorem run_length_le {b b' : Backup} {ds : List Delivery} (h : Run Delivered b ds b')
    (hok : BackupOk b) (hgood : PersistsOk b') (q : Address) :
    (recordsOf b' q).length ≤ (recordsOf b q).length + (receivedFrom q ds).length := by
  induction h with
  | nil => exact Nat.le_add_right _ _
  | cons hd hr ih =>
    have hok' := hok.step hd
    have hstep := hd.length_le hok (hgood.before hr hok') q
    have hrest := ih hok' hgood
    rw [receivedFrom_cons, List.length_append]
    omega

/-- A run that has kept as many records as it received met the condition throughout. -/
theorem run_accepts {b b' : Backup} {ds : List Delivery} (h : Run Delivered b ds b')
    (hok : BackupOk b) (hgood : PersistsOk b')
    (hall : ∀ q, (recordsOf b q).length + (receivedFrom q ds).length ≤ (recordsOf b' q).length) :
    Along Accepts Delivered b ds := by
  induction h with
  | nil => trivial
  | @cons b s' b' d ds hd hr ih =>
    have hok' := hok.step hd
    have hgood' := hgood.before hr hok'
    have hsplit : ∀ q, (receivedFrom q (d :: ds)).length =
        (receivedFrom q [d]).length + (receivedFrom q ds).length := fun q => by
      rw [receivedFrom_cons, List.length_append]
    refine ⟨⟨(hd.cases hok).1, ?_⟩, ?_⟩
    · intro s hs
      obtain ⟨q, hq⟩ := hok.owned s hs
      by_cases hne : d.primary = q
      · exact hne ▸ hq
      · have hlost := hd.drops hok hgood' hs hq hne
        have hrest := run_length_le hr hok' hgood q
        have hkept := hall q
        rw [hsplit] at hkept
        omega
    · intro t ht
      obtain rfl : s' = t := Option.some.inj (hd.symm.trans ht)
      apply ih hok' hgood
      intro q
      have hkept := hall q
      have hstep := hd.length_le hok hgood' q
      rw [hsplit] at hkept
      omega

theorem recordsOf_init (cwd : Path) (q : Address) : recordsOf (initSegmentManager cwd) q = [] := rfl

/-- When the calls of `persist` succeed under fresh names, the backup holds the records of
every primary as they were received exactly if each message fitted the buffer and found
no segment of another primary in the manager. -/
theorem records_kept_iff (cwd : Path) (ds : List Delivery)
    (hpersist : ∀ b, Run Delivered (initSegmentManager cwd) ds b → PersistsOk b) :
    (∃ b, Run Delivered (initSegmentManager cwd) ds b ∧
        ∀ p, persistedOf b p ++ heldOf b p = receivedFrom p ds) ↔
      Along Accepts Delivered (initSegmentManager cwd) ds := by
  have hinit := backupOk_init cwd
  constructor
  · intro ⟨b, hr, hrecords⟩
    apply run_accepts hr hinit (hpersist b hr)
    intro q
    have hq : recordsOf b q = receivedFrom q ds := hrecords q
    simp [recordsOf_init, hq]
  · intro hcond
    have htotal : ∀ b d, BackupOk b → Accepts b d → ∃ b', Delivered b d b' :=
      fun b d hok hacc => delivered_of_fits hok hacc.1
    have hstep : ∀ b d b', BackupOk b → Delivered b d b' → BackupOk b' :=
      fun b d b' hok hd => hok.step hd
    obtain ⟨b, hr⟩ := Run.of_along htotal hstep hinit hcond
    refine ⟨b, hr.unguard, fun q => ?_⟩
    have hq := run_adds hr hinit (hpersist b hr.unguard) q
    rwa [recordsOf_init, List.nil_append] at hq

/-! ## Two primaries -/

section

def firstPrimary : Address := ⟨ascii "10.0.0.1", 11211, by decide +kernel, by decide, by decide, by decide, by decide⟩
def secondPrimary : Address := ⟨ascii "10.0.0.2", 11211, by decide +kernel, by decide, by decide, by decide, by decide⟩
def setRecord : Record :=
  ⟨ascii "set a 0 0 1" ++ [CR], ascii "v" ++ [CR], by decide +kernel, by decide +kernel⟩
def noon : Os := { created := 1000, now := 1000, fopen := fun _ _ => true }
def deliverFrom (p : Address) : Delivery := { os := noon, primary := p, record := setRecord }

/-- The backup after the record of a primary. -/
def holdsOnly (p : Address) : Backup :=
  { initSegmentManager [] with
    Manager := { used := true, segment := .seg (extended none p.ip p.port (recordSeglet noon setRecord)) .null } }

theorem delivered_first : Delivered (initSegmentManager []) (deliverFrom firstPrimary)
    (holdsOnly firstPrimary) := by
  unfold Delivered
  decide +kernel

theorem delivered_second : Delivered (holdsOnly firstPrimary) (deliverFrom secondPrimary)
    (holdsOnly secondPrimary) := by
  unfold Delivered
  decide +kernel

/-- The segment holds so many copies of the record, and nothing was persisted. -/
structure Copies (b : Backup) (k : Nat) : Prop where
  ok : BackupOk b
  disk : b.disk = []
  persists : b.persists = []
  held : heldOf b firstPrimary = List.replicate k setRecord.text

/-- One more copy, or the segment with it is in a new file. -/
theorem Copies.step {b b' : Backup} {k : Nat} (h : Copies b k) (hd : Delivered b (deliverFrom firstPrimary) b') :
    (k < 65536 → Copies b' (k + 1)) ∧ (65536 ≤ k → b'.persists.length = 1 ∧ PersistsOk b') := by
  obtain ⟨_, cur, s, hlist, hcur, hs, hb⟩ := hd.cases h.ok
  replace hs : s = extended cur firstPrimary.ip firstPrimary.port (recordSeglet noon setRecord) := hs
  have hheld := h.held
  rw [heldOf_one hlist] at hheld
  have hcommands : commands s.segleter = List.replicate (k + 1) setRecord.text := by
    rw [hs, extended_commands, hheld, List.replicate_succ']
    rfl
  have hof : s.isOf firstPrimary.ip firstPrimary.port = true := by simp [hs, extended_isOf]
  have htext : setRecord.text.length = 16 := by decide +kernel
  have hcapacity : s.header.capacity = MAX_SEGMENT_CAPACITY - ((k + 1) * 16 : Nat) := by
    have hok : SegmentOk s := hs ▸ .extended hcur rfl
    rw [hok.capacity, hcommands, List.length_flatten, List.map_replicate, List.sum_replicate_nat, htext]
  rw [MAX_SEGMENT_CAPACITY] at hcapacity
  obtain ⟨hroom, rfl⟩ | ⟨hfull, rfl⟩ := hb
  · refine ⟨fun _ => ⟨h.ok.step hd, h.disk, h.persists, ?_⟩, fun hk => absurd hroom (by omega)⟩
    rw [@heldOf_one _ (some s) rfl]
    simpa [Option.filter, hof] using hcommands
  · refine ⟨fun hk => absurd hfull (by omega), fun _ => ?_⟩
    simp [persist, PersistsOk, h.persists, h.disk, deliverFrom, noon]

/-- As many records as fill a segment. -/
def fillsSegment : List Delivery := List.replicate 65537 (deliverFrom firstPrimary)

theorem Copies.run {b b' : Backup} {k n : Nat} (h : Copies b k) (hn : k + n = 65537) (hpos : 0 < n)
    (hr : Run Delivered b (List.replicate n (deliverFrom firstPrimary)) b') : b'.persists.length = 1 ∧ PersistsOk b' := by
  induction n generalizing b k with
  | zero => omega
  | succ n ih =>
    cases hr with
    | @cons _ b1 _ _ _ hd hr =>
      by_cases hk : k < 65536
      · exact ih ((h.step hd).1 hk) (by omega) (by omega) hr
      · obtain rfl : n = 0 := by omega
        cases hr
        exact (h.step hd).2 (by omega)

theorem records_kept_iff_persisted :
    (∀ b, Run Delivered (initSegmentManager []) fillsSegment b → b.persists.length = 1) ∧
    ((∃ b, Run Delivered (initSegmentManager []) fillsSegment b ∧
        ∀ p, persistedOf b p ++ heldOf b p = receivedFrom p fillsSegment) ↔
      Along Accepts Delivered (initSegmentManager []) fillsSegment) := by
  have hfilled : ∀ b, Run Delivered (initSegmentManager []) fillsSegment b → b.persists.length = 1 ∧ PersistsOk b :=
    fun b hr => Copies.run ⟨backupOk_init [], rfl, rfl, rfl⟩ rfl (Nat.succ_pos _) hr
  exact ⟨fun b hr => (hfilled b hr).1, records_kept_iff [] fillsSegment fun b hr => (hfilled b hr).2⟩

/-- The record of the second primary takes the place of that of the first. -/
theorem second_primary_drops_first :
    ¬ ∀ (cwd : Path) (ds : List Delivery) (b : Backup), Run Delivered (initSegmentManager cwd) ds b →
      PersistsOk b → ∀ p, persistedOf b p ++ heldOf b p = receivedFrom p ds := by
  intro h
  have hrun : Run Delivered (initSegmentManager []) [deliverFrom firstPrimary, deliverFrom secondPrimary]
      (holdsOnly secondPrimary) := .cons delivered_first (.cons delivered_second (.nil _))
  exact absurd (h _ _ _ hrun nofun firstPrimary) (by decide +kernel)

end

end RamCube
