import RamCube.Store.KeyValues

/-! # Counting numbers up and down (memcached.c)

`do_add_delta` on an item that holds a number. The data of an item is no C string, so the
number is read from memory that goes on behind the data. -/
namespace RamCube

variable {cfg : Settings} {env : AllocEnv} {s s' : Store} {old p : Ptr} {held : Ptr → Nat} {key : Bytes}
  {text : Item → Bytes} {incr : Bool} {delta cas : UInt64}

/-! ## Reading the number -/

/-- What `ITEM_data` reads as when the bytes `after` follow the data in memory. -/
def memoryText (after : Bytes) (it : Item) : Bytes := (itemData it ++ after).takeWhile (· ≠ 0)

theorem takeWhile_decimal (n : Nat) (rest : Bytes) :
    (decimal n ++ 13 :: rest).takeWhile isDigit = decimal n ∧ (decimal n ++ 13 :: rest).dropWhile isDigit = 13 :: rest := by
  have hdigits : ∀ b ∈ decimal n, isDigit b = true := fun _ h => mem_decimal h
  have hcr : ¬isDigit 13 = true := by simp [isDigit]
  rw [List.takeWhile_append_of_pos hdigits, List.dropWhile_append_of_pos hdigits, List.takeWhile_cons_of_neg hcr,
    List.dropWhile_cons_of_neg hcr, List.append_nil]
  exact ⟨rfl, rfl⟩

/-- A number from `2 ^ 63` on is refused where a minus sign follows anywhere. -/
theorem safeStrtoull_decimal (v : UInt64) (rest : Bytes) :
    safeStrtoull (decimal v.toNat ++ 13 :: rest) = if 2 ^ 63 ≤ v.toNat ∧ 45 ∈ rest then none else some v := by
  have hread : readDigits 0 (decimal v.toNat) = v.toNat := by simpa using readDigits_decimal v.toNat [] nofun
  obtain ⟨htake, hdrop⟩ := takeWhile_decimal v.toNat rest
  have hsp : isSpace 13 = true := by simp [isSpace]
  have hmem : 45 ∈ decimal v.toNat ++ 13 :: rest ↔ 45 ∈ rest := by
    have hno : (45 : UInt8) ∉ decimal v.toNat := fun h => absurd (mem_decimal h) (by simp [isDigit])
    simp [hno]
  unfold safeStrtoull
  simp only [strtoullSplit_decimal, htake, hdrop, hread, hmem]
  rw [if_neg (not_or.mpr ⟨decimal_ne_nil _, Nat.not_le.mpr v.toNat_lt⟩), if_neg (by simp [hsp])]
  simp

theorem memoryText_numeral {it : Item} {v : UInt64} (h : itemData it = decimal v.toNat ++ [13, 10]) (after : Bytes) :
    memoryText after it = decimal v.toNat ++ 13 :: (10 :: after.takeWhile (· ≠ 0)) := by
  have hne : ∀ b ∈ decimal v.toNat ++ [13, 10], decide (b ≠ (0 : UInt8)) = true := by
    intro b hb
    simp only [List.mem_append, List.mem_cons, List.not_mem_nil, or_false] at hb
    obtain hb | rfl | rfl := hb
    · exact decide_eq_true fun h0 => absurd (mem_decimal (h0 ▸ hb)) (by simp [isDigit])
    · rfl
    · rfl
  rw [memoryText, h, List.takeWhile_append_of_pos hne]
  simp

/-- The number is read, unless a minus sign behind the data refuses it. -/
theorem memoryText_reads {it : Item} {v : UInt64} (h : itemData it = decimal v.toNat ++ [13, 10]) (after : Bytes) :
    safeStrtoull (memoryText after it) = if 2 ^ 63 ≤ v.toNat ∧ 45 ∈ after.takeWhile (· ≠ 0) then none else some v := by
  rw [memoryText_numeral h, safeStrtoull_decimal]
  simp

/-! ## Writing the number -/

/-- The flags are read back from behind the blank that the suffix starts with. -/
theorem strtol_suffix {i : Item} (h : ItemWf cfg i) : strtol ((itemSuffix i).drop 1) = itemFlags i := by
  obtain ⟨flags, hs⟩ := h.suffix
  have hblank : ∃ rest, itemSuffix i = 32 :: rest := by
    rw [hs]
    exact ⟨_, rfl⟩
  obtain ⟨rest, hrest⟩ := hblank
  rw [itemFlags, hrest, List.drop_one, List.tail_cons, strtol_space]

/-- The entry of a chunk that a number is written to. -/
theorem numberCopy_entry (cfg : Settings) (id : SlabId) (key : Bytes) (flags : Int) (exptime : UInt32) (buf : Bytes)
    (c : Item) (cas : UInt64) :
    { itemEntry (writeData 0 (buf ++ [13, 10]) (itemInit cfg id key flags exptime (buf.length + 2) c)) with cas := cas } =
      (⟨flags, exptime, buf, cas⟩ : Entry) := by
  generalize hn : itemInit cfg id key flags exptime (buf.length + 2) c = n
  have hbytes : n.nbytes = (buf ++ [13, 10]).length := by
    rw [← hn, List.length_append]
    rfl
  have hflags : itemFlags (writeData 0 (buf ++ [13, 10]) n) = flags := by
    obtain ⟨bytes, he, hb⟩ := writeData_bytes 0 (buf ++ [13, 10]) n
    have hsuffix : itemSuffix (writeData 0 (buf ++ [13, 10]) n) = itemSuffix n := by
      rw [he]
      exact slice_congr fun k _ hk => hb k (by simpa [itemDataOff] using hk)
    rw [itemFlags, hsuffix, ← hn]
    unfold itemSuffix
    exact (congrArg strtol slice_blit_self).trans (strtol_headerSuffix flags _)
  have hvalue : (itemData (writeData 0 (buf ++ [13, 10]) n)).take (n.nbytes - 2) = buf := by
    have hdata : itemData (writeData 0 (buf ++ [13, 10]) n) = buf ++ [13, 10] := by
      change slice (blit n.bytes (itemDataOff n) (buf ++ [13, 10])) (itemDataOff n) n.nbytes = _
      rw [hbytes, slice_blit_self]
    rw [hdata, hbytes, List.length_append]
    exact List.take_left
  have hexp : (writeData 0 (buf ++ [13, 10]) n).exptime = exptime := by
    rw [← hn]
    rfl
  have hentry : itemEntry (writeData 0 (buf ++ [13, 10]) n) =
      ⟨itemFlags (writeData 0 (buf ++ [13, 10]) n), (writeData 0 (buf ++ [13, 10]) n).exptime,
        (itemData (writeData 0 (buf ++ [13, 10]) n)).take (n.nbytes - 2), itemGetCas (writeData 0 (buf ++ [13, 10]) n)⟩ := rfl
  rw [hentry, hflags, hexp, hvalue]

theorem othersKept_modify (hk : s.key p = key) (f : Item → Item) (hf : ∀ i, itemKey (f i) = itemKey i) :
    OthersKept s (s.modify p f) key := by
  refine .of_mem ⟨rfl, rfl⟩ fun q hq => ?_
  have hne : q ≠ p := by
    intro he
    subst he
    obtain hq | hq := hq
    · exact hq hk
    · refine hq ?_
      unfold Store.key
      rw [modify_mem_self, hf]
      exact hk
  rw [modify_mem_of_ne hne]
  exact ⟨rfl, rfl⟩

theorem Bound.modify {n : Ptr} {e : Entry} (hb : Bound s key n e) (hne : n ≠ p) (f : Item → Item) :
    Bound (s.modify p f) key n e := by
  obtain ⟨h1, h2, h3, h4⟩ := hb
  unfold Store.key at h2
  refine ⟨?_, ?_, ?_, ?_⟩
  · rwa [modify_mem_of_ne hne]
  · unfold Store.key
    rwa [modify_mem_of_ne hne]
  · rwa [modify_mem_of_ne hne]
  · rwa [modify_mem_of_ne hne]

/-- There is memory for the number: a chunk that is not taken from a live item. -/
def DeltaRoom (text : Item → Bytes) (cfg : Settings) (env : AllocEnv) (s : Store) (key : Bytes) (incr : Bool)
    (delta : UInt64) : Prop :=
  ∀ s' old v, doItemGet cfg s key (cfg.hash key) = (s', some old) → safeStrtoull (text (s'.mem old)) = some v →
    ∃ s2 n, doItemAlloc cfg env s' key (strtol ((itemSuffix (s'.mem old)).drop 1)) (s'.mem old).exptime
        ((decimal (deltaValue incr delta v).toNat).length + 2) (cfg.hash key) = (s2, some n) ∧
      ((s'.mem n).linked = true → flushedOrExpired s' (s'.mem n) = true)

/-- What becomes of an item that was found and read as a number. -/
structure DeltaDone (cfg : Settings) (s : Store) (key : Bytes) (old : Ptr) (e : Entry) (buf : Bytes)
    (r : Store × DeltaResult) : Prop where
  result : r.2 = ⟨.OK, buf, some old⟩
  others : OthersKept s r.1 key
  bound : ∃ n, Bound r.1 key n { e with value := buf, cas := linkCas cfg s }
  cas : itemGetCas (r.1.mem old) = linkCas cfg s

/-- A number that gets a chunk is bound to the key. The other keys are left alone if the
chunk held nothing alive. -/
theorem doAddDeltaReading_bound {s2 : Store} {n : Ptr} (hg : Got cfg s held key s' old) (h : StoreOk cfg s held)
    (hw : ItemsWf cfg s held) (g : ReadingGuard text cfg env s key incr delta)
    (he : doItemGet cfg s key (cfg.hash key) = (s', some old)) (hcas : cas = 0 ∨ itemGetCas (s'.mem old) = cas)
    {v : UInt64} (hv : safeStrtoull (text (s'.mem old)) = some v)
    (hal : doItemAlloc cfg env s' key (strtol ((itemSuffix (s'.mem old)).drop 1)) (s'.mem old).exptime
      ((decimal (deltaValue incr delta v).toNat).length + 2) (cfg.hash key) = (s2, some n)) :
    (doAddDeltaReading text cfg env s key incr delta cas (cfg.hash key)).2 =
      ⟨.OK, decimal (deltaValue incr delta v).toNat, some old⟩ ∧
    Bound (doAddDeltaReading text cfg env s key incr delta cas (cfg.hash key)).1 key n
      { itemEntry (s'.mem old) with value := decimal (deltaValue incr delta v).toNat, cas := linkCas cfg s } ∧
    itemGetCas ((doAddDeltaReading text cfg env s key incr delta cas (cfg.hash key)).1.mem old) = linkCas cfg s ∧
    (((s'.mem n).linked = true → flushedOrExpired s' (s'.mem n) = true) →
      OthersKept s (doAddDeltaReading text cfg env s key incr delta cas (cfg.hash key)).1 key) := by
  have hwo : ItemWf cfg (s'.mem old) := (hw old (.inl ((hg.linked old).symm.trans hg.stored))).congr
    (stored_of_body (hg.body old))
  have hok := hg.ok h
  have ha := g.alloc s' old v he hv
  generalize hbuf : decimal (deltaValue incr delta v).toNat = buf at ha hal
  obtain ⟨s2', n', id, c, hal', _, _, hmem⟩ := (doItemAlloc_spec hok ha.page key
    (strtol ((itemSuffix (s'.mem old)).drop 1)) (s'.mem old).exptime (buf.length + 2) (cfg.hash key)
    ha.noRepair).resolve_left (by rw [hal]; exact fun hx => nomatch hx)
  rw [hal] at hal'
  cases hal'
  obtain ⟨_, hfc⟩ := freshCopy hok ha hal (writeData_bytes 0 (buf ++ [13, 10]) (s2.mem n))
  have hno : old ≠ n := hfc.ne (addRef_self held old)
  have hcopy : (s2.modify n (writeData 0 (buf ++ [13, 10]))).mem n = writeData 0 (buf ++ [13, 10]) (s2.mem n) :=
    modify_mem_self
  have hwn : ItemWf cfg ((s2.modify n (writeData 0 (buf ++ [13, 10]))).mem n) := by
    obtain ⟨bytes, hbytes, hsame⟩ := writeData_bytes 0 (buf ++ [13, 10]) (s2.mem n)
    have hinit : ItemWf cfg (s2.mem n) := by
      rw [hmem]
      exact itemInit_wf cfg id _ _ _ (Nat.le_add_left 2 _) c
    rw [hcopy, hbytes, ← itemSetCas_self { s2.mem n with bytes := bytes }]
    exact hinit.write hsame
  have hkeyo : (s2.modify n (writeData 0 (buf ++ [13, 10]))).key old = key :=
    (key_of_body (hfc.others old hno (.inl hg.stored)).1).trans hg.key
  have hentry : { itemEntry (writeData 0 (buf ++ [13, 10]) (s2.mem n)) with cas := linkCas cfg s } =
      { itemEntry (s'.mem old) with value := buf, cas := linkCas cfg s } := by
    rw [hmem, numberCopy_entry, strtol_suffix hwo]
    rfl
  have hb := bound_replace hwn (Ne.symm hno) (cfg.hash key)
  have ho := othersKept_replace cfg (Ne.symm hno) hkeyo hfc.key (cfg.hash key)
  rw [hfc.key, linkCas_congr (hfc.env.trans hg.env), hcopy, hentry] at hb
  obtain ⟨hold, _⟩ := replace_mem cfg (s2.modify n (writeData 0 (buf ++ [13, 10]))) old n (cfg.hash key) (Ne.symm hno)
  obtain ⟨hbody, _⟩ := hold old hno
  have hmis : ¬(cas ≠ 0 ∧ itemGetCas (s'.mem old) ≠ cas) := fun hm => hcas.elim hm.1 hm.2
  have hkey : itemKey (s'.mem old) = key := hg.key
  unfold doAddDeltaReading
  rw [he]
  dsimp only
  rw [if_neg hmis, hv]
  dsimp only
  rw [if_pos (.inr (hg.shared h)), hbuf, hkey, hal]
  dsimp only
  generalize doItemReplace cfg (s2.modify n (writeData 0 (buf ++ [13, 10]))) old n (cfg.hash key) = s3 at hb ho hbody ⊢
  have hkey3 : s3.key old = key := (key_of_body hbody).trans hkeyo
  have hcas3 : itemGetCas (s3.mem n) = linkCas cfg s := congrArg Entry.cas hb.entry
  have hold3 : (s3.mem old).hasCas = cfg.useCas :=
    (stored_field (·.hasCas) (fun _ => rfl) (stored_of_body hbody)).trans
      ((stored_field (·.hasCas) (fun _ => rfl) (stored_of_body (hfc.others old hno (.inl hg.stored)).1)).trans hwo.hasCas)
  generalize hgive : (if cfg.useCas = true then itemGetCas (s3.mem n) else 0) = given
  have hgiven : given = linkCas cfg s := by
    rw [← hgive, hcas3]
    unfold linkCas
    split <;> rfl
  have hkeep : ∀ i, itemKey (itemSetCas i given) = itemKey i := fun i => itemSetCas_field itemKey (fun _ _ => rfl) i given
  refine ⟨rfl, ((hb.modify (Ne.symm hno) _).remove cfg n).remove cfg old, ?_, fun hlive => ?_⟩
  · rw [itemGetCas_of_body (doItemRemove_mem cfg _ old old).1, itemGetCas_of_body (doItemRemove_mem cfg _ n old).1,
      modify_mem_self, hgiven]
    unfold itemSetCas itemGetCas linkCas
    cases hu : cfg.useCas <;> rw [hu] at hold3 <;> simp [hold3]
  · exact hg.others.trans ((hfc.otherKeys hlive).trans (ho.trans ((othersKept_modify hkey3 _ hkeep).trans
      ((othersKept_remove cfg _ n _).trans (othersKept_remove cfg _ old _)))))

theorem doAddDeltaReading_got (hg : Got cfg s held key s' old) (h : StoreOk cfg s held) (hw : ItemsWf cfg s held)
    (g : ReadingGuard text cfg env s key incr delta) (hroom : DeltaRoom text cfg env s key incr delta)
    (he : doItemGet cfg s key (cfg.hash key) = (s', some old)) (hcas : cas = 0 ∨ itemGetCas (s'.mem old) = cas)
    {v : UInt64} (hv : safeStrtoull (text (s'.mem old)) = some v) :
    DeltaDone cfg s key old (itemEntry (s'.mem old)) (decimal (deltaValue incr delta v).toNat)
      (doAddDeltaReading text cfg env s key incr delta cas (cfg.hash key)) := by
  obtain ⟨s2, n, hal, hlive⟩ := hroom s' old v he hv
  obtain ⟨hres, hb, hcas', hothers⟩ := doAddDeltaReading_bound hg h hw g he hcas hv hal
  exact ⟨hres, hothers hlive, ⟨n, hb⟩, hcas'⟩

/-! ## The command -/

/-- The sum modulo `2 ^ 64`, or the difference down to 0. -/
def countedNumber (incr : Bool) (v delta : Nat) : Nat := if incr then (v + delta) % 2 ^ 64 else v - delta

theorem deltaValue_toNat (incr : Bool) (delta v : UInt64) :
    (deltaValue incr delta v).toNat = countedNumber incr v.toNat delta.toNat := by
  cases incr with
  | true => exact UInt64.toNat_add v delta
  | false =>
    show (if v < delta then (0 : UInt64) else v - delta).toNat = v.toNat - delta.toNat
    split
    · rename_i h
      exact (Nat.sub_eq_zero_of_le (Nat.le_of_lt h)).symm
    · rename_i h
      exact UInt64.toNat_sub_of_le _ _ (UInt64.not_lt.mp h)

/-- The answer is OK. The key is bound to the new number with the flags and the expiry time
it had, under the `cas` unique that the caller is told, which no item had that was stored
in `t`. The other keys are left alone. -/
structure NumberCounted (cfg : Settings) (t s : Store) (p : Ptr) (incr : Bool) (delta v : UInt64)
    (r : Store × DeltaResult) : Prop where
  result : r.2.result = .OK
  buf : r.2.buf = decimal (countedNumber incr v.toNat delta.toNat)
  entry : ∃ c, lookup cfg r.1 (s.key p) = some { itemEntry (s.mem p) with
      value := decimal (countedNumber incr v.toNat delta.toNat), cas := c } ∧
    r.2.it.map (fun it => itemGetCas (r.1.mem it)) = some c ∧
    ∀ q, (t.mem q).linked = true → itemGetCas (t.mem q) < c
  others : ∀ k, k ≠ s.key p → lookup cfg r.1 k = lookup cfg s k

/-- The item is found, its `cas` unique is not another than the caller's, and no minus sign
follows the data of a number from `2 ^ 63` on. -/
structure NumberFound (s : Store) (p : Ptr) (cas v : UInt64) (after : Bytes) : Prop where
  inPlace : inRebalance s p = false
  live : flushedOrExpired s (s.mem p) = false
  cas : cas = 0 ∨ itemGetCas (s.mem p) = cas
  minus : v.toNat < 2 ^ 63 ∨ 45 ∉ after.takeWhile (· ≠ 0)

/-- An entry that takes the place of a live one is not hidden. -/
theorem visible_of_live (ho : OrderOk s) (hl : (s.mem p).linked = true) (hd : flushedOrExpired s (s.mem p) = false)
    {e : Entry} (he : e.exptime = (s.mem p).exptime) : visible s e = true := by
  have hpast := ho.past p hl
  rw [flushedOrExpired, Bool.or_eq_false_iff] at hd
  unfold visible
  rw [he, hd.2, Bool.not_false, Bool.and_true, Bool.not_eq_true']
  by_contra hc
  simp only [Bool.not_eq_false, Bool.and_eq_true, bne_iff_ne, beq_iff_eq] at hc
  obtain ⟨hne, heq⟩ := hc
  have hold := hd.1
  rw [heq] at hne hold
  simp [hne, hpast] at hold

/-- In every reachable store `do_add_delta` counts the number of a linked item up or down,
whatever follows its data in memory, if and only if the item is found and no minus sign
gets in the way of a number from `2 ^ 63` on. -/
theorem number_counted_iff (hc : cfg.useCas = true) {k : Nat} {as bs : List ItemsOp} {t st : ItemsState}
    (hr : Run (Guarded Sane (ItemsStep cfg)) (itemsInit k) as t) (hr' : Run (Guarded Sane (ItemsStep cfg)) t bs st)
    (hleft : LinksLeft st.store) (hl : (st.store.mem p).linked = true) {v : UInt64}
    (hdata : itemData (st.store.mem p) = decimal v.toNat ++ [13, 10]) (after : Bytes)
    (g : ReadingGuard (memoryText after) cfg env st.store (st.store.key p) incr delta)
    (hroom : DeltaRoom (memoryText after) cfg env st.store (st.store.key p) incr delta) :
    NumberCounted cfg t.store st.store p incr delta v (doAddDeltaReading (memoryText after) cfg env st.store
        (st.store.key p) incr delta cas (cfg.hash (st.store.key p))) ↔
      NumberFound st.store p cas v after := by
  obtain ⟨ht, _⟩ := (storeInv_init cfg k).run hc hr
  obtain ⟨hst, hle⟩ := ht.run hc hr'
  have h := hst.ok
  have hget := doItemGet_cases h (st.store.key p)
  constructor
  · intro hn
    have hres := hn.result
    unfold doAddDeltaReading at hres
    obtain ⟨_, hnone⟩ | ⟨it, s', he, _⟩ | ⟨it, s', he, hlit, hkit, hreb, hlive, _, _, _, hmem⟩ := hget
    · exact absurd rfl (hnone p hl)
    · rw [he] at hres
      cases hres
    obtain rfl := h.key_inj hlit hl hkit
    rw [he] at hres
    dsimp only at hres
    rw [itemGetCas_of_body (hmem it).1] at hres
    have hdata' : itemData (s'.mem it) = decimal v.toNat ++ [13, 10] :=
      (stored_field itemData (fun _ => rfl) (stored_of_body (hmem it).1)).trans hdata
    rw [memoryText_reads hdata'] at hres
    by_cases hm : cas ≠ 0 ∧ itemGetCas (st.store.mem it) ≠ cas
    · rw [if_pos hm] at hres
      cases hres
    rw [if_neg hm] at hres
    by_cases hminus : 2 ^ 63 ≤ v.toNat ∧ 45 ∈ after.takeWhile (· ≠ 0)
    · rw [if_pos hminus] at hres
      cases hres
    refine ⟨hreb, hlive, ?_, ?_⟩
    · by_cases h0 : cas = 0
      · exact .inl h0
      · exact .inr (by_contra fun hne => hm ⟨h0, hne⟩)
    · by_cases hv : v.toNat < 2 ^ 63
      · exact .inl hv
      · exact .inr fun hin => hminus ⟨Nat.not_lt.mp hv, hin⟩
  · intro hf
    rcases doItemGet_outcome h g.roomAt with ⟨s', he, hg⟩ | ⟨s', old, he, hg⟩
    · obtain hd | hd := hg.dead p hl rfl
      · exact absurd (hf.inPlace.symm.trans hd) nofun
      · exact absurd (hf.live.symm.trans hd) nofun
    have hlold : (st.store.mem old).linked = true := (hg.linked old).symm.trans hg.stored
    obtain rfl : old = p := h.key_inj hlold hl ((key_of_body (hg.body old)).symm.trans hg.key)
    have hcas : cas = 0 ∨ itemGetCas (s'.mem old) = cas := by
      rw [itemGetCas_of_body (hg.body old)]
      exact hf.cas
    have hdata' : itemData (s'.mem old) = decimal v.toNat ++ [13, 10] :=
      (stored_field itemData (fun _ => rfl) (stored_of_body (hg.body old))).trans hdata
    have hv : safeStrtoull (memoryText after (s'.mem old)) = some v := by
      rw [memoryText_reads hdata', if_neg fun hm => hf.minus.elim (fun hlt => Nat.not_lt.mpr hm.1 hlt) fun hn => hn hm.2]
    have hdone := doAddDeltaReading_got hg h hst.wf.items g hroom he hcas hv
    have h' := run_keeps h (doAddDeltaReading_run (w := fun _ _ => True) h cas g fun _ => trivial)
    generalize doAddDeltaReading (memoryText after) cfg env st.store (st.store.key old) incr delta cas
      (cfg.hash (st.store.key old)) = r at hdone h' ⊢
    obtain ⟨n, hbound⟩ := hdone.bound
    have hentry : itemEntry (s'.mem old) = itemEntry (st.store.mem old) := itemEntry_of_body (hg.body old)
    rw [deltaValue_toNat, hentry] at hbound
    have hvis : visible r.1 { itemEntry (st.store.mem old) with
        value := decimal (countedNumber incr v.toNat delta.toNat), cas := linkCas cfg st.store } = true := by
      have hsame : ∀ e, visible r.1 e = visible st.store e := fun e => by
        unfold visible
        rw [hdone.others.now, hdone.others.mark]
      rw [hsame]
      exact visible_of_live hst.order hl hf.live rfl
    refine ⟨by rw [hdone.result], by rw [hdone.result, deltaValue_toNat], ⟨linkCas cfg st.store, ?_, ?_, fun q hq => ?_⟩,
      fun key hkey => hdone.others.lookup h h' hkey⟩
    · rw [hbound.lookup h', if_pos hvis]
    · rw [hdone.result]
      exact congrArg some hdone.cas
    · rw [linkCas_eq hc, UInt64.lt_iff_toNat_lt, toNat_succ_of_left hleft]
      have hold := ht.wf.cas q hq
      omega

/-! ### A counter -/

/-- A chunk for the counter `k`, and two more. -/
def counterAlloc : Store × Option Ptr :=
  doItemAlloc oneClass ⟨fun _ => true, some [4096, 5096, 6096]⟩ (storeInit 16) [107] 7 0 21 0

def counterHeld : Ptr → Nat := giveRef (fun _ => 0) counterAlloc.2

/-- The number the counter holds. -/
def counterText : Bytes := decimal (2 ^ 63) ++ [13, 10]

def counterWritten : Store := counterAlloc.1.modify 6096 (writeData 0 counterText)

def counterStore : ItemsState := ⟨doItemLink oneClass counterWritten 6096 0, counterHeld⟩

theorem counterStore_reachable : ∃ ops, Run (Guarded Sane (ItemsStep oneClass)) (itemsInit 16) ops counterStore := by
  have h1 : ItemsStep oneClass (itemsInit 16) (.alloc ⟨fun _ => true, some [4096, 5096, 6096]⟩ [107] 7 0 21 0)
      ⟨counterAlloc.1, counterHeld⟩ :=
    .alloc (storeInit 16) _ _ [107] 7 0 21 0 (by decide) (by simp [FreshPage, storeInit]) rfl
  obtain ⟨bytes, hbytes, hsame⟩ := writeData_bytes 0 counterText (counterAlloc.1.mem 6096)
  have hm : counterWritten =
      counterAlloc.1.modify 6096 fun i => itemSetCas { i with bytes := bytes } (counterAlloc.1.mem 6096).cas := by
    refine modify_congr ?_
    rw [hbytes]
    exact (itemSetCas_self { counterAlloc.1.mem 6096 with bytes := bytes }).symm
  have h2 : ItemsStep oneClass ⟨counterAlloc.1, counterHeld⟩ (.write 6096 bytes (counterAlloc.1.mem 6096).cas)
      ⟨counterWritten, counterHeld⟩ := by
    rw [hm]
    exact .write _ counterHeld 6096 bytes _ (by decide) rfl hsame
  have h3 : ItemsStep oneClass ⟨counterWritten, counterHeld⟩ (.link 6096) counterStore :=
    .link counterWritten counterHeld 6096 (by decide) rfl rfl (.inl rfl)
  exact ⟨[.alloc ⟨fun _ => true, some [4096, 5096, 6096]⟩ [107] 7 0 21 0,
      .write 6096 bytes (counterAlloc.1.mem 6096).cas, .link 6096],
    .cons ⟨⟨trivial, fun hl => hl.elim⟩, h1⟩ (.cons ⟨⟨trivial, fun hl => hl.elim⟩, h2⟩
      (.single ⟨⟨trivial, fun _ => (by decide : LinksLeft (storeInit 16))⟩, h3⟩))⟩

/-- The store when the counter has been looked up. -/
def counterGot : Store := (doItemGet oneClass counterStore.store [107] 0).1

def counterNumber : UInt64 := UInt64.ofNat (2 ^ 63)

theorem counterStore_facts : (counterStore.store.mem 6096).linked = true ∧ counterStore.store.key 6096 = [107] ∧
    itemData (counterStore.store.mem 6096) = decimal counterNumber.toNat ++ [13, 10] ∧ LinksLeft counterStore.store ∧
    itemData (counterGot.mem 6096) = decimal counterNumber.toNat ++ [13, 10] ∧
    (doItemGet oneClass counterStore.store [107] 0).2 = some 6096 ∧
    flushedOrExpired counterStore.store (counterStore.store.mem 6096) = false := by
  decide +kernel

theorem counterGot_facts :
    tailRepairFires oneClass noPage 0 counterGot 5 (counterGot.tails (allocClass oneClass [107]
      (strtol ((itemSuffix (counterGot.mem 6096)).drop 1)) 21)) = false ∧
    (doItemAlloc oneClass noPage counterGot [107] (strtol ((itemSuffix (counterGot.mem 6096)).drop 1))
      (counterGot.mem 6096).exptime 21 0).2 = some 5096 ∧
    (counterGot.mem 5096).linked = false ∧ (decimal (deltaValue true 1 counterNumber).toNat).length = 19 := by
  decide +kernel

theorem counter_get {s' : Store} {old : Ptr} (he : doItemGet oneClass counterStore.store [107] 0 = (s', some old)) :
    s' = counterGot ∧ old = 6096 := by
  obtain ⟨_, _, _, _, _, hfound, _⟩ := counterStore_facts
  have hold : some 6096 = some old := by rw [← hfound, he]
  refine ⟨?_, (Option.some.inj hold).symm⟩
  rw [counterGot, he]

theorem counter_reads {after : Bytes} {v : UInt64} (h : safeStrtoull (memoryText after (counterGot.mem 6096)) = some v) :
    v = counterNumber := by
  obtain ⟨_, _, _, _, hdata, _⟩ := counterStore_facts
  rw [memoryText_reads hdata] at h
  split at h <;> cases h
  rfl

theorem counter_guard (after : Bytes) : ReadingGuard (memoryText after) oneClass noPage counterStore.store [107] true 1 where
  roomAt := fun _ _ _ => .inl rfl
  alloc := by
    intro s' old v he hv
    obtain ⟨rfl, rfl⟩ := counter_get he
    obtain rfl := counter_reads hv
    obtain ⟨hrepair, _, _, hlen⟩ := counterGot_facts
    rw [hlen]
    exact ⟨by simp [FreshPage, noPage], hrepair⟩

theorem counter_room (after : Bytes) : DeltaRoom (memoryText after) oneClass noPage counterStore.store [107] true 1 := by
  intro s' old v he hv
  obtain ⟨rfl, rfl⟩ := counter_get he
  obtain rfl := counter_reads hv
  obtain ⟨_, halloc, hfree, hlen⟩ := counterGot_facts
  rw [hlen]
  refine ⟨_, 5096, Prod.ext rfl halloc, fun hl => ?_⟩
  rw [hfree] at hl
  cases hl

theorem number_counted_iff_counter :
    NumberCounted oneClass counterStore.store counterStore.store 6096 true 1 counterNumber
        (doAddDeltaReading (memoryText [0]) oneClass noPage counterStore.store (counterStore.store.key 6096) true 1 0
          (oneClass.hash (counterStore.store.key 6096))) ↔
      NumberFound counterStore.store 6096 0 counterNumber [0] := by
  obtain ⟨as, hr⟩ := counterStore_reachable
  obtain ⟨hl, hk, hdata, hleft, _⟩ := counterStore_facts
  have hguard := counter_guard [0]
  have hroom := counter_room [0]
  rw [← hk] at hguard hroom
  exact number_counted_iff rfl hr (.nil _) hleft hl hdata [0] hguard hroom

/-- With a minus sign in the memory behind it, `9223372036854775808` is no number. -/
theorem minus_behind_number : ∃ ops, Run (Guarded Sane (ItemsStep oneClass)) (itemsInit 16) ops counterStore ∧
    (counterStore.store.mem 6096).linked = true ∧
    itemData (counterStore.store.mem 6096) = decimal counterNumber.toNat ++ [13, 10] ∧
    flushedOrExpired counterStore.store (counterStore.store.mem 6096) = false ∧
    DeltaRoom (memoryText [45]) oneClass noPage counterStore.store [107] true 1 ∧
    ¬NumberCounted oneClass counterStore.store counterStore.store 6096 true 1 counterNumber
      (doAddDeltaReading (memoryText [45]) oneClass noPage counterStore.store [107] true 1 0 0) := by
  obtain ⟨ops, hr⟩ := counterStore_reachable
  obtain ⟨hl, _, hdata, _, _, _, hlive⟩ := counterStore_facts
  refine ⟨ops, hr, hl, hdata, hlive, counter_room [45], fun hn => ?_⟩
  have hresult : (doAddDeltaReading (memoryText [45]) oneClass noPage counterStore.store [107] true 1 0 0).2.result =
      .NON_NUMERIC := by decide +kernel
  exact absurd (hn.result.symm.trans hresult) nofun

end RamCube
