import RamCube.Backup.Merged
import RamCube.Backup.UnitRecord
import RamCube.Server.BackupReplies

/-! # The cuts of a stream of requests

What the backup holds depends on where the calls of `try_read_network` cut the stream: a
request is handled with what the call that ended its command line has read of it, and the
rest of that buffer is dropped. `Arrives` are the cuts that do no harm: inside a command
line or the last line end of a request, or between requests. Reads that arrive so leave the
same records, whatever their cuts (`splits_agree`). -/
namespace RamCube

/-! ## Harmless cuts -/

/-- Requests that follow another one in a buffer. -/
def followers (rs : List BackupRequest) : List (Bytes × Record) := rs.map fun r => (requestLine r.dataConnPtr, r.record)

def requestTexts (rs : List BackupRequest) : List Bytes := rs.map fun r => r.record.text

/-- A buffer of whole requests, of which the last has this much of its line end. -/
def wholeBuffer (p : Address) (r : BackupRequest) (rest : List BackupRequest) (eol : Bytes) : Bytes :=
  requestLine r.dataConnPtr ++ CR :: LF :: (merged p r.record (followers rest) ++ p.text ++ eol)

/-- The reads to come bring the requests `rs` without harm. Of the segment `used` bytes are
taken, `eol` is still missing of the line end before the requests, and `buf` was read to a
buffer of `rsize` bytes. A buffer that ends a command line has whole requests then; they fit
`IpPort`, and only the last may fill the segment. -/
inductive Arrives (p : Address) : Nat → Bytes → Nat → Bytes → List ReadResult → List BackupRequest → Prop where
  | done {used rsize : Nat} : Arrives p used [] rsize [] [] []
  | call {used rsize n : Nat} {eol buf got : Bytes} {reads more : List ReadResult} {rs : List BackupRequest} (hlf : LF ∉ buf)
      (hgot : got ≠ []) (hcall : networkCall 4 rsize buf.length reads = some (got, n, more))
      (next : Arrives p used eol n (buf ++ got) more rs) : Arrives p used eol rsize buf reads rs
  | lineEnd {used rsize : Nat} {eol more : Bytes} {reads : List ReadResult} {rs : List BackupRequest} (heol : eol ∈ [[LF], [CR, LF]])
      (next : Arrives p used [] (shrunkSize rsize more.length) more reads rs) : Arrives p used eol rsize (eol ++ more) reads rs
  | requests {used rsize : Nat} {r : BackupRequest} {rest rs : List BackupRequest} {eol eol' : Bytes} {reads : List ReadResult}
      (heol : eol ++ eol' = [CR, LF]) (hfit : (merged p r.record (followers rest)).length + p.text.length < 2048)
      (hroom : used + (requestTexts (r :: rest)).dropLast.flatten.length ≤ segmentBytes)
      (next : Arrives p ((requestTexts (r :: rest)).foldl (fun n text => fill n text.length) used) eol' (shrunkSize rsize 0) []
        reads rs) :
      Arrives p used [] rsize (wholeBuffer p r rest eol) reads (r :: rest ++ rs)

variable {p : Address} {used rsize : Nat} {eol buf : Bytes} {reads : List ReadResult} {rs : List BackupRequest}

theorem wholeBuffer_wires (p : Address) (r : BackupRequest) (rest : List BackupRequest) :
    wholeBuffer p r rest [CR, LF] = wires p (r :: rest) := by
  induction rest generalizing r with
  | nil => simp [wholeBuffer, followers, merged, wires, BackupRequest.wire, message]
  | cons q rest ih =>
    have hmerged : merged p r.record (followers (q :: rest)) =
        r.record.text ++ (p.text ++ CR :: LF :: (requestLine q.dataConnPtr ++ [CR, LF])) ++ merged p q.record (followers rest) := rfl
    have hwires : wires p (q :: rest) = requestLine q.dataConnPtr ++
        CR :: LF :: (merged p q.record (followers rest) ++ p.text ++ [CR, LF]) := (ih q).symm
    rw [wires_cons, hwires, wholeBuffer, hmerged, message]
    simp

/-- What was read and what is to come are the rest of the stream. -/
theorem Arrives.stream (h : Arrives p used eol rsize buf reads rs) : buf ++ dataOf reads = eol ++ wires p rs := by
  induction h with
  | done => rfl
  | call _ _ hcall _ ih =>
    obtain ⟨taken, rfl, -, hdata⟩ := networkCall_takes hcall
    rw [dataOf_append, hdata, ← List.append_assoc, ih]
  | lineEnd _ _ ih => rw [List.append_assoc, ih, List.nil_append]
  | @requests used rsize r rest rs eol eol' reads heol _ _ _ ih =>
    have hwires : wires p (r :: rest ++ rs) = wires p (r :: rest) ++ wires p rs := List.flatMap_append
    rw [hwires, ← wholeBuffer_wires, ← heol]
    rw [List.nil_append] at ih
    simp [wholeBuffer, ih]

theorem length_le_before {xs ys : Bytes} (h : buf <+: xs ++ LF :: ys) (hlf : LF ∉ buf) : buf.length ≤ xs.length := by
  by_contra hlong
  have hpre : xs ++ [LF] <+: buf :=
    List.prefix_of_prefix_length_le (by simp) h (by rw [List.length_append, List.length_singleton]; omega)
  exact hlf (hpre.subset (by simp))

/-- Only a part of a command line or of a line end waits for more. -/
theorem Arrives.short (h : Arrives p used eol rsize buf reads rs) (heol : eol ∈ [[], [LF], [CR, LF]]) (hlf : LF ∉ buf) :
    buf.length ≤ 1024 := by
  have hpre : buf <+: eol ++ wires p rs := ⟨dataOf reads, h.stream⟩
  simp only [List.mem_cons, List.not_mem_nil, or_false] at heol
  obtain rfl | rfl | rfl := heol
  · cases rs with
    | nil =>
      have hnil : buf = [] := List.prefix_nil.mp hpre
      rw [hnil]
      exact Nat.zero_le _
    | cons r rs =>
      have hdigits : (decimal r.dataConnPtr).length ≤ 19 :=
        length_decimal_le (Nat.succ_pos 18) (Nat.lt_trans r.ptr_lt (by decide))
      have hline : (requestLine r.dataConnPtr ++ [CR]).length ≤ 1024 := by
        have hword : (ascii "BACKUP_REQUEST ").length = 15 := by decide +kernel
        simp only [requestLine, List.length_append, List.length_singleton, hword]
        omega
      have hsplit : [] ++ wires p (r :: rs) = (requestLine r.dataConnPtr ++ [CR]) ++ LF :: (message p r.record ++ wires p rs) := by
        simp [wires_cons]
      rw [hsplit] at hpre
      exact Nat.le_trans (length_le_before hpre hlf) hline
  · exact Nat.le_trans (length_le_before (show buf <+: [] ++ LF :: wires p rs from hpre) hlf) (Nat.zero_le _)
  · exact Nat.le_trans (length_le_before (show buf <+: [CR] ++ LF :: wires p rs from hpre) hlf) (by simp)

theorem Arrives.more {got : Bytes} {n : Nat} {more : List ReadResult} (h : Arrives p used eol rsize buf reads rs) (hlf : LF ∉ buf)
    (hgot : got ≠ []) (hcall : networkCall 4 rsize buf.length reads = some (got, n, more)) :
    Arrives p used eol n (buf ++ got) more rs := by
  cases h with
  | done => exact absurd (networkCall_nil hcall) hgot
  | call _ _ hcall' next =>
    rw [hcall] at hcall'
    cases hcall'
    exact next
  | lineEnd hend _ =>
    exfalso
    rcases List.mem_pair.mp hend with rfl | rfl <;> simp at hlf
  | requests => simp [wholeBuffer] at hlf

/-- As long as something is to come, there is a call for it. -/
theorem Arrives.calls (h : Arrives p used eol rsize buf reads rs) (hlf : LF ∉ buf) (hreads : reads ≠ []) :
    ∃ got ≠ [], ∃ n more, networkCall 4 rsize buf.length reads = some (got, n, more) := by
  cases h with
  | done => exact absurd rfl hreads
  | call _ hgot hcall _ => exact ⟨_, hgot, _, _, hcall⟩
  | lineEnd hend _ =>
    exfalso
    rcases List.mem_pair.mp hend with rfl | rfl <;> simp at hlf
  | requests => simp [wholeBuffer] at hlf

/-- What was read is used up when nothing is to come. -/
theorem Arrives.last (h : Arrives p used eol rsize buf [] rs) (hlf : LF ∉ buf) : buf = [] := by
  cases h with
  | done => rfl
  | call _ hgot hcall _ => exact absurd (networkCall_nil hcall) hgot
  | lineEnd hend _ =>
    exfalso
    rcases List.mem_pair.mp hend with rfl | rfl <;> simp at hlf
  | requests => simp [wholeBuffer] at hlf

theorem followers_lines {rest : List BackupRequest} : ∀ q ∈ followers rest, ∀ c ∈ q.1, c ≠ CR := by
  intro q hq c hc
  obtain ⟨q', -, rfl⟩ := List.mem_map.mp hq
  exact (mem_requestLine hc).2.2

/-! ## The records of one primary -/

section

variable {b b' : Backup} {ds : List Delivery} {os : Os}

def deliveredTexts (ds : List Delivery) : List Bytes := ds.map fun d => d.record.text

theorem delivered_held (hr : Run Delivered b ds b') (hok : BackupOk b) (hp : ∀ d ∈ ds, d.primary = p) :
    heldOf b' p = (deliveredTexts ds).foldl keepRecord (heldOf b p) := by
  induction hr with
  | nil => rfl
  | @cons b b1 b' d ds hd _ ih =>
    obtain ⟨rfl, hrest⟩ := List.forall_mem_cons.mp hp
    have hheld := (Delivered.own hok hd).2
    rw [ih (hok.step hd) hrest, hheld]
    rfl

theorem delivered_bytes (hr : Run Delivered b ds b') (hok : BackupOk b) (hp : ∀ d ∈ ds, d.primary = p) :
    heldBytes b' p = (deliveredTexts ds).foldl (fun n text => fill n text.length) (heldBytes b p) := by
  rw [heldBytes, delivered_held hr hok hp, heldBytes]
  generalize heldOf b p = held
  induction deliveredTexts ds generalizing held with
  | nil => rfl
  | cons text texts ih => rw [List.foldl_cons, List.foldl_cons, ih, keepRecord_bytes]

/-- Where every segment goes to a new file, no record is lost. -/
theorem delivered_records (hr : Run Delivered b ds b') (hok : BackupOk b) (hp : ∀ d ∈ ds, d.primary = p)
    (hgood : PersistsOk b') : recordsOf b' p = recordsOf b p ++ deliveredTexts ds := by
  induction hr with
  | nil => simp [deliveredTexts]
  | @cons b b1 b' d ds hd hr ih =>
    obtain ⟨hprimary, hrest⟩ := List.forall_mem_cons.mp hp
    have hok1 := hok.step hd
    have hstep := hd.held hok (hgood.before hr hok1) p
    rw [if_pos hprimary] at hstep
    rw [ih hok1 hrest hgood]
    unfold recordsOf
    rw [hstep]
    simp [deliveredTexts]

theorem deliveries_primary (os : Os) (p : Address) (rs : List Record) : ∀ d ∈ deliveries os p rs, d.primary = p := by
  intro d hd
  obtain ⟨r, -, rfl⟩ := List.mem_map.mp hd
  rfl

theorem deliveries_texts (os : Os) (p : Address) (r : BackupRequest) (rest : List BackupRequest) :
    deliveredTexts (deliveries os p (recordsIn r.record (followers rest))) = requestTexts (r :: rest) := by
  simp [deliveredTexts, deliveries, recordsIn, followers, requestTexts, Function.comp_def]

/-- Whole requests that fit can be stored, if only the last may fill the segment. -/
theorem append_whole {r : BackupRequest} {rest : List BackupRequest} (os : Os) (hok : BackupOk b)
    (heol : ∀ c ∈ eol, c = CR ∨ c = LF) (hfit : (merged p r.record (followers rest)).length + p.text.length < 2048)
    (hroom : heldBytes b p + (requestTexts (r :: rest)).dropLast.flatten.length ≤ segmentBytes) :
    ∃ b', appendToSegment os b (merged p r.record (followers rest) ++ p.text ++ eol) = some b' := by
  have hfits := fits_of_merged hfit
  rw [← Option.isSome_iff_exists, appendToSegment_merged b p r.record followers_lines heol, if_pos hfit,
    storeRecord_first (hfits _ List.mem_cons_self)]
  obtain ⟨b1, hd⟩ := delivered_of_fits (d := ⟨os, p, r.record⟩) hok (hfits _ List.mem_cons_self)
  have hfirst : appendToSegment os b (message p r.record) = some b1 := hd
  rw [hfirst, Option.bind_some]
  cases rest with
  | nil => rfl
  | cons q rest =>
    have hheld := (hd.own hok).2
    have hlast : (requestTexts (r :: q :: rest)).dropLast = r.record.text :: (requestTexts (q :: rest)).dropLast :=
      List.dropLast_cons_of_ne_nil (List.cons_ne_nil _ _)
    have hsum : (requestTexts (q :: rest)).dropLast.flatten.length =
        (((q :: rest).map BackupRequest.record).dropLast.map fun r => r.text.length).sum := by
      rw [requestTexts, ← List.map_dropLast, ← List.map_dropLast, List.map_map, List.length_flatten, List.map_map]
      rfl
    rw [hlast, List.flatten_cons, List.length_append, hsum] at hroom
    have hlen : (heldOf b p).flatten.length = heldBytes b p := rfl
    have hbytes : heldBytes b1 p = heldBytes b p + r.record.text.length := by
      rw [heldBytes, hheld, keepRecord_bytes]
      exact if_neg (by omega)
    have hne : heldOf b1 p ≠ [] := by
      rw [hheld, keepRecord, if_neg (by omega)]
      simp
    have hrest : followers (q :: rest) = (q :: rest).map fun r => (requestLine r.dataConnPtr, r.record) := rfl
    rw [hrest, List.foldlM_map]
    have hsome : (((q :: rest).map BackupRequest.record).foldlM (storeRecord os p false) b1).isSome :=
      storeRecords_isSome os (hok.step hd) (fun x hx => hfits x (List.mem_cons_of_mem _ (by simpa [followers, Function.comp_def] using hx)))
        (.inr hne) (by omega)
    rwa [List.foldlM_map] at hsome

end

/-! ## The connection -/

/-- Of the requests whose texts are `texts` the backup has those before `rs`; the rest comes
without harm. -/
structure SplitFeed (p : Address) (b0 : Backup) (texts : List Bytes) (eol : Bytes) (rs : List BackupRequest) (f : Feed)
    (rest : List ReadResult) : Prop where
  arrives : Arrives p (heldBytes f.backup p) eol f.rsize f.buf rest rs
  eol : eol ∈ [[], [LF], [CR, LF]]
  backup : ∃ ds, Run Delivered b0 ds f.backup ∧ (∀ d ∈ ds, d.primary = p) ∧ texts = deliveredTexts ds ++ requestTexts rs
  ok : BackupOk f.backup

def SplitInv (p : Address) (b0 : Backup) (texts : List Bytes) (f : Feed) (rest : List ReadResult) : Prop :=
  ∃ eol rs, SplitFeed p b0 texts eol rs f rest

section

variable {f f' : Feed} {rest : List ReadResult} {b0 : Backup} {texts : List Bytes} {os : Os}

/-- What is missing of a line end is handled as a line. -/
theorem LineServed.lineEnd_inv {more : Bytes} (h : LineServed os f f') (hbuf : f.buf = eol ++ more)
    (heol : eol ∈ [[LF], [CR, LF]]) : f'.buf = more ∧ f'.backup = f.backup := by
  cases h with
  | @request ptr rsize leftCom said text b b' h0 h =>
    exfalso
    obtain ⟨rest, hline⟩ : ∃ rest, requestLine ptr = 66 :: rest := ⟨_, rfl⟩
    simp only [List.mem_cons, List.not_mem_nil, or_false] at heol
    rw [hline] at hbuf
    rcases heol with rfl | rfl <;> simp [CR, LF] at hbuf
  | @lineEnd rsize eol' more' said b heol' =>
    simp only [List.mem_cons, List.not_mem_nil, or_false] at heol heol'
    dsimp only at hbuf
    rcases heol with rfl | rfl <;> rcases heol' with rfl | rfl <;> simp [CR, LF] at hbuf
    · exact ⟨hbuf, rfl⟩
    · exact ⟨hbuf, rfl⟩

theorem rest_eol {eol' : Bytes} (h : eol ++ eol' = [CR, LF]) :
    (∀ c ∈ eol, c = CR ∨ c = LF) ∧ eol' ∈ [[], [LF], [CR, LF]] := by
  constructor
  · intro c hc
    have hmem : c ∈ [CR, LF] := h ▸ List.mem_append_left _ hc
    simpa using hmem
  · obtain ⟨n, rfl⟩ : ∃ n, eol' = [CR, LF].drop n := ⟨eol.length, by rw [← h, List.drop_left]⟩
    match n with
    | 0 | 1 | n + 2 => simp

theorem SplitFeed.served (h : SplitFeed p b0 texts eol rs f rest) (hs : LineServed os f f') :
    ∃ eol' rs', SplitFeed p b0 texts eol' rs' f' rest := by
  have hsize := hs.rsize
  obtain ⟨buf, b, said, rsize⟩ := f
  obtain ⟨harrives, heol, ⟨ds, hrun, hprimary, htexts⟩, hok⟩ := h
  have hlf := lf_mem_of_served hs
  dsimp only at harrives hrun hok hlf
  generalize hused : heldBytes b p = used at harrives
  cases harrives with
  | done => exact absurd hlf List.not_mem_nil
  | call hno => exact absurd hlf hno
  | @lineEnd _ _ _ more _ _ hend next =>
    obtain ⟨hbuf, hbackup⟩ := hs.lineEnd_inv rfl hend
    obtain ⟨buf', b', said', rsize'⟩ := f'
    dsimp only at hbuf hbackup hsize
    subst hbuf hbackup hsize
    exact ⟨[], rs, hused ▸ next, List.mem_cons_self, ⟨ds, hrun, hprimary, htexts⟩, hok⟩
  | @requests _ _ r group rs' eol1 eol' _ hend hfit hroom next =>
    obtain ⟨b', happ, rfl⟩ := hs.request_inv rfl
    obtain ⟨hchars, heol'⟩ := rest_eol hend
    have hgroup := appendToSegment_delivers hok followers_lines hchars happ
    have hall := deliveries_primary os p (recordsIn r.record (followers group))
    have hbytes := delivered_bytes hgroup hok hall
    rw [deliveries_texts, hused] at hbytes
    refine ⟨eol', rs', hbytes ▸ next, heol', ⟨ds ++ deliveries os p (recordsIn r.record (followers group)), hrun.append hgroup,
      fun d hd => (List.mem_append.mp hd).elim (hprimary d) (hall d), ?_⟩, BackupOk.run hgroup hok⟩
    have hstored : deliveredTexts (ds ++ deliveries os p (recordsIn r.record (followers group))) =
        deliveredTexts ds ++ requestTexts (r :: group) := by
      rw [← deliveries_texts os p r group]
      exact List.map_append
    have hcoming : requestTexts (r :: group ++ rs') = requestTexts (r :: group) ++ requestTexts rs' := List.map_append
    rw [htexts, hstored, hcoming, List.append_assoc]

/-- A line can be handled. -/
theorem SplitFeed.serves (h : SplitFeed p b0 texts eol rs f rest) (hlf : LF ∈ f.buf) (os : Os) :
    Line f.buf ∧ ∃ f', LineServed os f f' := by
  obtain ⟨buf, b, said, rsize⟩ := f
  obtain ⟨harrives, heol, -, hok⟩ := h
  dsimp only at harrives hok hlf ⊢
  generalize hused : heldBytes b p = used at harrives
  cases harrives with
  | done => exact absurd hlf List.not_mem_nil
  | call hno => exact absurd hlf hno
  | lineEnd hend _ => exact ⟨.lineEnd hend, _, .lineEnd hend⟩
  | @requests _ _ r group rs' eol1 eol' _ hend hfit hroom _ =>
    obtain ⟨hchars, -⟩ := rest_eol hend
    obtain ⟨b', happ⟩ := append_whole os hok hchars hfit (hused ▸ hroom)
    have h0 : ∀ x ∈ merged p r.record (followers group) ++ p.text ++ eol1, x ≠ 0 := by
      intro x hx
      suffices hmem : x ∈ wires p (r :: group) from wires_ne_zero hmem
      rw [← wholeBuffer_wires, ← hend, wholeBuffer]
      simp only [List.mem_append, List.mem_cons] at hx ⊢
      tauto
    exact ⟨.request h0, LineServed.of_append rfl h0 happ⟩

theorem splitInv : FeedInv (SplitInv p b0 texts) where
  short := by
    rintro f rest ⟨eol, rs, h⟩ hlf
    exact h.arrives.short h.eol hlf
  line := by
    rintro f rest ⟨eol, rs, h⟩ hlf
    exact (h.serves hlf noon).1
  served := by
    rintro f f' rest os ⟨eol, rs, h⟩ hs
    exact h.served hs
  read := by
    rintro f rest got n more ⟨eol, rs, harrives, heol, hbackup, hok⟩ hlf hgot hcall
    exact ⟨eol, rs, harrives.more hlf hgot hcall, heol, hbackup, hok⟩

end

/-! ## Two ways to split a stream -/

section

variable {cfg : Config} {k k' : BackupConn} {reads1 reads2 more : List ReadResult} {es : List BackupEvent} {q : Address} {ptr n : Nat}
  {leftCom : Bytes}

/-- The whole stream can be read, and as far as it is read, every turn is defined. -/
structure Consumes (cfg : Config) (k : BackupConn) (reads : List ReadResult) : Prop where
  ends : ∃ es k', Run (BackupHappens cfg) k es k' ∧ readsOf es = reads ∧ Waiting k'.s
  defined : ∀ es k', Run (BackupHappens cfg) k es k' → readsOf es <+: reads →
    ∀ env inp, inp.calm = true → (k'.s.turn cfg env inp).isSome

/-- A run of the reads comes to a turn that is undefined. -/
def Breaks (cfg : Config) (k : BackupConn) (reads : List ReadResult) : Prop :=
  ∃ es k' env, Run (BackupHappens cfg) k es k' ∧ readsOf es <+: reads ∧ k'.s.turn cfg env .go = none

theorem Breaks.not_consumes (h : Breaks cfg k reads) : ¬Consumes cfg k reads := by
  obtain ⟨es, k', env, hrun, hpre, hnone⟩ := h
  intro hc
  have hsome := hc.defined es k' hrun hpre env .go rfl
  rw [hnone] at hsome
  cases hsome

def SameRecords (b b' : Backup) : Prop := ∀ q, persistedOf b q = persistedOf b' q ∧ heldOf b q = heldOf b' q

/-- Both ways the stream is consumed, and the backup holds the same records after it. -/
structure SplitsAgree (cfg : Config) (k : BackupConn) (reads1 reads2 : List ReadResult) : Prop where
  consumes : Consumes cfg k reads1 ∧ Consumes cfg k reads2
  same : ∀ es1 k1 es2 k2, Run (BackupHappens cfg) k es1 k1 → Run (BackupHappens cfg) k es2 k2 →
    readsOf es1 = reads1 → readsOf es2 = reads2 → Waiting k1.s → Waiting k2.s →
    PersistsOk k1.s.g.backup → PersistsOk k2.s.g.backup → SameRecords k1.s.g.backup k2.s.g.backup

theorem SplitInv.start (ho : Opened k) (h : Arrives p (heldBytes k.s.g.backup p) [] k.nextSize [] reads rs) :
    SplitInv p k.s.g.backup (requestTexts rs) ⟨[], k.s.g.backup, [], k.nextSize⟩ reads :=
  ⟨[], rs, h, List.mem_cons_self, ⟨[], .nil _, fun _ h => absurd h List.not_mem_nil, rfl⟩, ho.kept⟩

/-- After the last read all records are stored. -/
theorem SplitInv.done {f : Feed} (h : SplitInv p b0 texts f []) (hk : Tracks k f) (hw : Waiting k.s) :
    ∃ ds, Run Delivered b0 ds k.s.g.backup ∧ (∀ d ∈ ds, d.primary = p) ∧ texts = deliveredTexts ds := by
  obtain ⟨eol, rs, harrives, _, ⟨ds, hrun, hprimary, htexts⟩, _⟩ := h
  have hbuf : f.buf = [] := hk.buf.symm.trans hw.empty
  have hstream := harrives.stream
  rw [hbuf] at hstream
  have hrs : rs = [] := (wires_eq_nil p rs).mp (List.append_eq_nil_iff.mp hstream.symm).2
  rw [hrs] at htexts
  rw [hk.backup]
  exact ⟨ds, hrun, hprimary, htexts.trans (List.append_nil _)⟩

theorem delivered_others {b b' : Backup} {ds : List Delivery} (hr : Run Delivered b ds b') (hok : BackupOk b)
    (hp : ∀ d ∈ ds, d.primary = p) (hgood : PersistsOk b') (hne : p ≠ q) :
    persistedOf b' q = persistedOf b q ∧ heldOf b' q = if ds = [] then heldOf b q else [] := by
  induction hr with
  | nil => exact ⟨rfl, (if_pos rfl).symm⟩
  | @cons b b1 b' d ds hd hr ih =>
    obtain ⟨rfl, hrest⟩ := List.forall_mem_cons.mp hp
    have hok1 := hok.step hd
    have hown : heldOf b1 q = [] := heldOf_eq_nil (Delivered.own hok hd).1 hne
    have hstep := hd.held hok (hgood.before hr hok1) q
    rw [if_neg hne, hown, List.append_nil, List.append_nil] at hstep
    obtain ⟨hpersisted, hheld⟩ := ih hok1 hrest hgood
    rw [hown, ite_self] at hheld
    exact ⟨hpersisted.trans hstep, hheld.trans (if_neg (List.cons_ne_nil d ds)).symm⟩

/-- What one primary sent decides what the backup holds. -/
theorem delivered_same {b b1 b2 : Backup} {ds1 ds2 : List Delivery} (h1 : Run Delivered b ds1 b1)
    (h2 : Run Delivered b ds2 b2) (hok : BackupOk b) (hp1 : ∀ d ∈ ds1, d.primary = p) (hp2 : ∀ d ∈ ds2, d.primary = p)
    (hg1 : PersistsOk b1) (hg2 : PersistsOk b2) (htexts : deliveredTexts ds1 = deliveredTexts ds2) :
    SameRecords b1 b2 := by
  intro q
  by_cases hq : p = q
  · subst hq
    have hheld : heldOf b1 p = heldOf b2 p := by
      rw [delivered_held h1 hok hp1, delivered_held h2 hok hp2, htexts]
    have hall : persistedOf b1 p ++ heldOf b1 p = persistedOf b2 p ++ heldOf b2 p := by
      have hall1 := delivered_records h1 hok hp1 hg1
      have hall2 := delivered_records h2 hok hp2 hg2
      rw [htexts, ← hall2] at hall1
      exact hall1
    rw [hheld] at hall
    exact ⟨List.append_cancel_right hall, hheld⟩
  · have hnil : ds1 = [] ↔ ds2 = [] := by
      have hlen := congrArg List.length htexts
      rw [deliveredTexts, deliveredTexts, List.length_map, List.length_map] at hlen
      rw [← List.length_eq_zero_iff, hlen, List.length_eq_zero_iff]
    obtain ⟨hpersisted1, hheld1⟩ := delivered_others h1 hok hp1 hg1 hq
    obtain ⟨hpersisted2, hheld2⟩ := delivered_others h2 hok hp2 hg2 hq
    exact ⟨hpersisted1.trans hpersisted2.symm, by rw [hheld1, hheld2]; simp only [hnil]⟩

section

variable (hr : cfg.ramcubeMode = true) (hreq : 0 < cfg.reqsPerEvent) (ho : Opened k)
include hr hreq ho

theorem consumes_of_arrives (h : Arrives p (heldBytes k.s.g.backup p) [] k.nextSize [] reads rs) : Consumes cfg k reads where
  ends := by
    have hcalls : ∀ f rest, SplitInv p k.s.g.backup (requestTexts rs) f rest → LF ∉ f.buf → rest ≠ [] → ∃ got ≠ [], ∃ n more,
        networkCall 4 f.rsize f.buf.length rest = some (got, n, more) := fun f rest ⟨_, _, h⟩ hlf hrest => h.arrives.calls hlf hrest
    obtain ⟨es, k', hrun, hreads, f', hnext⟩ := ho.tracks.goes_reads splitInv hr hreq
      (fun f rest ⟨_, _, h⟩ hlf => (h.serves hlf _).2) hcalls (SplitInv.start ho h)
    obtain ⟨_, _, hfeed⟩ := hnext.inv
    exact ⟨es, k', hrun, hreads, .inr hnext.state, hnext.tracks.buf.trans (hfeed.arrives.last hnext.noLine)⟩
  defined es k' hrun hpre env inp hc := by
    obtain ⟨rest, hrest⟩ := hpre
    obtain ⟨f', hk', h'⟩ := ho.tracks.run splitInv hr (hrest ▸ SplitInv.start ho h) hrun
    obtain ⟨eol, rs', h'⟩ := h'
    exact hk'.turn_isSome hr (h'.arrives.short h'.eol) (fun hlf => (h'.serves hlf env.os).2) hc

/-- Reads that bring the requests without harm leave the same records, whatever their
cuts. -/
theorem splits_agree (h1 : Arrives p (heldBytes k.s.g.backup p) [] k.nextSize [] reads1 rs)
    (h2 : Arrives p (heldBytes k.s.g.backup p) [] k.nextSize [] reads2 rs) : SplitsAgree cfg k reads1 reads2 where
  consumes := ⟨consumes_of_arrives hr hreq ho h1, consumes_of_arrives hr hreq ho h2⟩
  same es1 k1 es2 k2 hrun1 hrun2 hreads1 hreads2 hw1 hw2 hg1 hg2 := by
    have hall1 : readsOf es1 ++ [] = reads1 := by rw [List.append_nil, hreads1]
    have hall2 : readsOf es2 ++ [] = reads2 := by rw [List.append_nil, hreads2]
    obtain ⟨f1, hk1, hI1⟩ := ho.tracks.run splitInv hr (hall1 ▸ SplitInv.start ho h1) hrun1
    obtain ⟨f2, hk2, hI2⟩ := ho.tracks.run splitInv hr (hall2 ▸ SplitInv.start ho h2) hrun2
    obtain ⟨ds1, hd1, hp1, htexts1⟩ := hI1.done hk1 hw1
    obtain ⟨ds2, hd2, hp2, htexts2⟩ := hI2.done hk2 hw2
    exact delivered_same hd1 hd2 ho.kept hp1 hp2 hg1 hg2 (htexts1.symm.trans htexts2)

/-- A call that ends a command line and has no address after it cannot be handled. -/
theorem stuck_without_address (h0 : ∀ x ∈ leftCom, x ≠ 0) (haddress : parseIpPort leftCom = none)
    (hcall : networkCall 4 k.nextSize 0 reads = some (requestLine ptr ++ CR :: LF :: leftCom, n, more)) : Breaks cfg k reads := by
  have hne : requestLine ptr ++ CR :: LF :: leftCom ≠ [] := by simp
  obtain ⟨taken, rfl, htaken, -⟩ := networkCall_takes hcall
  obtain ⟨es, t, hrun, hreads, hk, hst, hstate⟩ := ho.tracks.goes (fun _ => Nat.zero_le _) hreq
  obtain ⟨hs, -⟩ := hstate.resolve_right fun hline => List.not_mem_nil hline.2
  obtain ⟨u, ht, hk'⟩ := hk.data cfg hs hst hne n
  have hsize : t.rsize = k.nextSize := (nextSize_state (.inr (.inl hs))).symm.trans hk.size
  have hstep : BackupHappens cfg t (.read taken) ⟨u, n⟩ := by
    refine ⟨⟨hst, hs⟩, _, hne, ?_, ht⟩
    rw [hsize, hk.buf]
    exact htaken
  have hreads' : readsOf (es ++ [.read taken]) = taken := by
    rw [readsOf, List.flatMap_append, ← readsOf, hreads]
    simp
  have hpre : readsOf (es ++ [.read taken]) <+: taken ++ more := by
    rw [hreads']
    exact List.prefix_append taken more
  refine ⟨_, _, default, hrun.append (.cons hstep (.nil _)), hpre, ?_⟩
  obtain rfl := Option.some.inj (ht.symm.trans (hk.data_turn cfg hs hst hne))
  obtain ⟨_, hrequest⟩ := hk'.request_turn default hr hst rfl rfl h0
  rw [hrequest, Option.map_eq_none_iff, backupRequest]
  have happ : appendToSegment (default : Env).os k.s.g.backup leftCom = none := by
    rw [appendToSegment, haddress]
    rfl
  simp [happ]

/-- There is no stream with a request that can be cut anywhere. -/
theorem command_line_alone (hsize : DATA_BUFFER_SIZE ≤ k.nextSize) (r : BackupRequest) (rs : List BackupRequest) :
    ∃ pieces : List Bytes, (∀ bs ∈ pieces, bs ≠ []) ∧ pieces.flatten = wires p (r :: rs) ∧
      Breaks cfg k (pieces.map ReadResult.data) := by
  let rest := message p r.record ++ wires p rs
  have hline : (requestLine r.dataConnPtr ++ [CR, LF]).length < DATA_BUFFER_SIZE := by
    have hdigits : (decimal r.dataConnPtr).length ≤ 19 :=
      length_decimal_le (Nat.succ_pos 18) (Nat.lt_trans r.ptr_lt (by decide))
    have hword : (ascii "BACKUP_REQUEST ").length = 15 := by decide +kernel
    simp only [requestLine, DATA_BUFFER_SIZE, List.length_append, List.length_cons, List.length_nil, hword]
    omega
  refine ⟨(requestLine r.dataConnPtr ++ [CR, LF]) :: rest.map fun b => [b], ?_, ?_, ?_⟩
  · intro bs hbs
    obtain rfl | hbs := List.mem_cons.mp hbs
    · simp
    · obtain ⟨b, -, rfl⟩ := List.mem_map.mp hbs
      exact List.cons_ne_nil b []
  · have hflat : (rest.map fun b => [b]).flatten = rest := by
      induction rest with
      | nil => rfl
      | cons b bs ih => rw [List.map_cons, List.flatten_cons, ih]; rfl
    rw [List.flatten_cons, hflat, wires_cons]
    simp [rest]
  · have hshort : 0 + (requestLine r.dataConnPtr ++ CR :: LF :: []).length < k.nextSize := by
      rw [Nat.zero_add]
      exact Nat.lt_of_lt_of_le hline hsize
    have hnone : ∀ x ∈ ([] : Bytes), x ≠ 0 := fun _ h => absurd h List.not_mem_nil
    exact stuck_without_address hr hreq ho hnone rfl (networkCall_short (by simp) hshort)

end

/-! ## One request, cut in its command line -/

/-- A request that comes in pieces, of which only the last ends a line. -/
theorem arrives_whole {pieces : List Bytes} (r : BackupRequest) (hfit : r.fits p) (hlf : LF ∉ buf)
    (hbuf : buf ++ pieces.flatten = wires p [r]) (hpieces : ∀ bs ∈ pieces.dropLast, LF ∉ bs) (hne : ∀ bs ∈ pieces, bs ≠ [])
    (hsize : (wires p [r]).length < rsize) : Arrives p 0 [] rsize buf (pieces.map ReadResult.data) [r] := by
  induction pieces generalizing buf with
  | nil =>
    rw [List.flatten_nil, List.append_nil] at hbuf
    exact absurd (hbuf ▸ lf_mem_wires (List.cons_ne_nil r [])) hlf
  | cons bs pieces ih =>
    have hlen : buf.length + bs.length < rsize := by
      have htotal := congrArg List.length hbuf
      simp only [List.length_append, List.flatten_cons] at htotal
      omega
    refine .call hlf (hne bs List.mem_cons_self) (networkCall_short (hne bs List.mem_cons_self) hlen) ?_
    cases pieces with
    | nil =>
      rw [List.flatten_singleton] at hbuf
      rw [hbuf, ← wholeBuffer_wires]
      exact .requests rfl hfit (Nat.zero_le _) .done
    | cons bs' pieces =>
      have hcons : (bs :: bs' :: pieces).dropLast = bs :: (bs' :: pieces).dropLast :=
        List.dropLast_cons_of_ne_nil (List.cons_ne_nil _ _)
      rw [hcons, List.forall_mem_cons] at hpieces
      refine ih ?_ ?_ hpieces.2 fun bs hbs => hne bs (List.mem_cons_of_mem _ hbs)
      · simpa [hlf] using hpieces.1
      · rw [← hbuf, List.append_assoc]
        rfl

/-- The request in one read. -/
def inOne : List ReadResult := [wires firstPrimary [storedOn 4096 (by decide) (by decide)]].map ReadResult.data

theorem arrives_inOne : Arrives firstPrimary (heldBytes openedConn.s.g.backup firstPrimary) [] openedConn.nextSize [] inOne
    [storedOn 4096 (by decide) (by decide)] :=
  arrives_whole _ (show Fits firstPrimary setRecord by decide +kernel) List.not_mem_nil (by simp) (by simp)
    (by simp [wires_eq_nil]) (by decide +kernel)

/-- Two pieces, cut in the command line. -/
def inTwo : List ReadResult :=
  let text := wires firstPrimary [storedOn 4096 (by decide) (by decide)]
  [text.take 10, text.drop 10].map ReadResult.data

theorem splits_agree_one : SplitsAgree smallBackup openedConn inOne inTwo := by
  have hfirst : (wires firstPrimary [storedOn 4096 (by decide) (by decide)]).take 10 = ascii "BACKUP_REQ" := by rfl
  obtain ⟨more, hmore⟩ : ∃ more, (wires firstPrimary [storedOn 4096 (by decide) (by decide)]).drop 10 = 85 :: more := ⟨_, rfl⟩
  refine splits_agree rfl (by decide) opened_openedConn arrives_inOne (arrives_whole _ ?_ List.not_mem_nil (by simp) ?_ ?_ ?_)
  · exact show Fits firstPrimary setRecord by decide +kernel
  · rw [hfirst]
    exact List.forall_mem_singleton.mpr (by decide)
  · rw [hfirst, hmore]
    simp [ascii]
  · decide +kernel

/-- Requests cannot be cut anywhere. -/
theorem splits_disagree : ∃ cfg k p rs reads1 reads2, cfg.ramcubeMode = true ∧ 0 < cfg.reqsPerEvent ∧ Opened k ∧
    dataOf reads1 = wires p rs ∧ dataOf reads2 = wires p rs ∧ Consumes cfg k reads1 ∧ Breaks cfg k reads2 ∧
    ¬SplitsAgree cfg k reads1 reads2 := by
  obtain ⟨pieces, hne, hstream, hbreaks⟩ := @command_line_alone firstPrimary smallBackup openedConn rfl (by decide)
    opened_openedConn (Nat.le_refl _) (storedOn 4096 (by decide) (by decide)) []
  have hdata : dataOf (pieces.map ReadResult.data) = pieces.flatten := by
    rw [dataOf, List.flatMap_map]
    exact List.flatMap_id
  exact ⟨smallBackup, openedConn, firstPrimary, [storedOn 4096 (by decide) (by decide)], inOne, pieces.map ReadResult.data, rfl,
    by decide, opened_openedConn, by simp [dataOf, inOne], hdata.trans hstream,
    consumes_of_arrives rfl (by decide) opened_openedConn arrives_inOne, hbreaks, fun h => hbreaks.not_consumes h.consumes.2⟩

end

end RamCube
