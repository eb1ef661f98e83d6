import RamCube.Lib.Reading
import RamCube.Server.Flags

/-! # What clients read (memcached.c)

The response to a retrieval gives the length of each value before the value, so that a client
reads it back whatever bytes the values have. The client here is the reader of the protocol: it
is not part of the server. What it reads is what the store has for the keys it asked for. -/
namespace RamCube

/-! ## Reading a response -/

/-- What a client is told of a key. -/
structure TextReply where
  key : Bytes
  flags : Int
  value : Bytes
  cas : Option UInt64
deriving DecidableEq

/-- The rest of a VALUE line behind the flags: the length, and the `cas` unique if it was asked for. -/
def readLength (withCas : Bool) : Reader UInt8 (Nat × Option UInt64) :=
  if withCas then do
    let len ← Reader.upTo space
    let cas ← Reader.upTo CR
    return (readDigits 0 len, some (UInt64.ofNat (readDigits 0 cas)))
  else do
    let len ← Reader.upTo CR
    return (readDigits 0 len, none)

/-- A VALUE line and the value of as many bytes as it says. -/
def readValueReply (withCas : Bool) : Reader UInt8 TextReply := do
  Reader.literal (ascii "VALUE ")
  let key ← Reader.upTo space
  let flags ← Reader.upTo space
  let (len, cas) ← readLength withCas
  Reader.literal [LF]
  let value ← Reader.exactly len
  Reader.literal [CR, LF]
  return ⟨key, strtol flags, value, cas⟩

/-- The next value, or END. -/
def readNext (withCas : Bool) : Reader UInt8 (Option TextReply) := (readValueReply withCas).orStop (ascii "END" ++ [CR, LF])

/-- The values up to END. -/
def readReplies (withCas : Bool) : Reader UInt8 (List TextReply) := Reader.many (readNext withCas)

/-- What the store has for a key. -/
def replyOf (withCas : Bool) (key : Bytes) (e : Entry) : TextReply :=
  ⟨key, e.flags, e.value, if withCas then some e.cas else none⟩

/-! ## A value -/

section

variable {i : Item} {value : Bytes} (withCas : Bool)

theorem not_mem_decimal {b : UInt8} (hb : isDigit b = false) (n : Nat) : b ∉ decimal n := by
  intro hmem
  rw [mem_decimal hmem] at hb
  cases hb

theorem not_mem_decimalInt {b : UInt8} (hb : isDigit b = false) (hminus : b ≠ 45) (n : Int) : b ∉ decimalInt n := by
  cases n with
  | ofNat n => exact not_mem_decimal hb n
  | negSucc n =>
    intro hmem
    obtain rfl | hmem := List.mem_cons.mp hmem
    · exact hminus rfl
    · exact not_mem_decimal hb _ hmem

theorem readDigits_text (n : Nat) : readDigits 0 (decimal n) = n := by
  have h := readDigits_decimal n [] (by simp)
  rwa [List.append_nil] at h

theorem readLength_takes (n : Nat) (cas : UInt64) :
    (readLength withCas).Takes (decimal n ++ if withCas then space :: decimal cas.toNat ++ [CR] else [CR])
      (n, if withCas then some cas else none) := by
  cases withCas with
  | true =>
    have hread : (n, some cas) = (readDigits 0 (decimal n), some (UInt64.ofNat (readDigits 0 (decimal cas.toNat)))) := by
      rw [readDigits_text, readDigits_text, UInt64.ofNat_toNat]
    have htext : decimal n ++ (space :: decimal cas.toNat ++ [CR]) = decimal n ++ [space] ++ (decimal cas.toNat ++ [CR]) := by
      simp
    simp only [if_true]
    rw [htext, hread]
    exact (Reader.takes_upTo (not_mem_decimal rfl n)).bind
      ((Reader.takes_upTo (not_mem_decimal rfl cas.toNat)).last (Reader.takes_pure _))
  | false =>
    have hread : (n, (none : Option UInt64)) = (readDigits 0 (decimal n), none) := by rw [readDigits_text]
    simp only [Bool.false_eq_true, if_false]
    rw [hread]
    exact (Reader.takes_upTo (not_mem_decimal rfl n)).last (Reader.takes_pure _)

/-- The line of an item, as the suffix in the item and the `cas` unique make it up. -/
theorem valueResponse_eq {flags : Int} (hs : itemSuffix i = headerSuffix flags i.nbytes) (hd : itemData i = value ++ [CR, LF]) :
    valueResponse withCas i = ascii "VALUE " ++ (itemKey i ++ [space] ++ (decimalInt flags ++ [space] ++
      ((decimal value.length ++ if withCas then space :: decimal (itemGetCas i).toNat ++ [CR] else [CR]) ++
        ([LF] ++ (value ++ [CR, LF]))))) := by
  have hn : i.nbytes = value.length + 2 := by
    have hlen : (itemData i).length = i.nbytes := length_slice
    rw [← hlen, hd]
    simp
  have hsuffix : itemSuffix i = space :: decimalInt flags ++ space :: decimal value.length ++ [CR, LF] := by
    have hsub : ((i.nbytes : Int) - 2) = (value.length : Nat) := by omega
    rw [hs, headerSuffix, hsub]
    rfl
  have hsize : i.nsuffix - 2 = (space :: decimalInt flags ++ space :: decimal value.length).length := by
    have hlen : (itemSuffix i).length = i.nsuffix := length_slice
    rw [← hlen, hsuffix]
    simp only [List.length_append, List.length_cons, List.length_nil]
    omega
  unfold valueResponse
  rw [hd, hsuffix, hsize, List.take_left' rfl]
  have hblank : ascii " " = [space] := rfl
  cases withCas <;> simp [hblank]

/-- An item is read back from its response. -/
theorem readValueReply_takes {flags : Int} (hs : itemSuffix i = headerSuffix flags i.nbytes) (hv : HoldsValue i value)
    (hk : space ∉ itemKey i) :
    (readValueReply withCas).Takes (valueResponse withCas i) (replyOf withCas (itemKey i) (itemEntry i)) := by
  have hentry : replyOf withCas (itemKey i) (itemEntry i) =
      ⟨itemKey i, strtol (decimalInt flags), value, if withCas then some (itemGetCas i) else none⟩ := by
    have hflags : itemFlags i = flags := by rw [itemFlags, hs, strtol_headerSuffix]
    have hdigits : strtol (decimalInt flags) = flags := by
      have h := strtol_decimalInt flags [] (by simp)
      rwa [List.append_nil] at h
    rw [replyOf, itemEntry, hflags, hdigits, hv.value]
  rw [valueResponse_eq withCas hs (holdsValue_iff.mp hv), hentry]
  refine (Reader.takes_literal _).bind ((Reader.takes_upTo hk).bind ((Reader.takes_upTo ?_).bind
    ((readLength_takes withCas _ _).bind ((Reader.takes_literal _).bind ((Reader.takes_exactly rfl).bind
      ((Reader.takes_literal _).last (Reader.takes_pure _)))))))
  exact not_mem_decimalInt rfl (by decide) flags

theorem readNext_takes {flags : Int} (hs : itemSuffix i = headerSuffix flags i.nbytes) (hv : HoldsValue i value)
    (hk : space ∉ itemKey i) :
    (readNext withCas).Takes (valueResponse withCas i) (some (replyOf withCas (itemKey i) (itemEntry i))) := by
  have hread := readValueReply_takes withCas hs hv hk
  obtain ⟨text, htext⟩ : ∃ text, valueResponse withCas i = 86 :: text := ⟨_, rfl⟩
  rw [htext] at hread ⊢
  exact hread.orStop (by decide)

end

/-! ## Lookups -/

section

variable {cfg : Settings} {processStarted : Int} {s : Store} {held : Ptr → Nat} {key k : Bytes} {it : Ptr}
  {given : Bytes → Option Bytes}

theorem getItem_inv (h : ClientInv cfg ⟨s, held⟩) (hr : RoomAt cfg s key) :
    ClientInv cfg ⟨(getItem cfg s key).1, giveRef held (getItem cfg s key).2⟩ := by
  have hstep : ClientStep cfg 0 ⟨s, held⟩ (.get key) _ := .get s held key
  have hq : Unhindered cfg 0 ⟨s, held⟩ (.get key) := hr
  exact (hstep.keeps_inv h hq).1

/-- A live item stays alive when it is moved to the head of its queue: its time is not before that of a flush. -/
theorem live_update {s' : Store} {i j : Item} {t : UInt32} (henv : s'.env = s.env) (hpast : i.time ≤ s.currentTime)
    (hb : j.body = { i.body with time := t }) (ht : t = i.time ∨ t = s.currentTime)
    (hlive : flushedOrExpired s i = false) : flushedOrExpired s' j = false := by
  have hnow : s'.currentTime = s.currentTime := congrArg (·.1) henv
  have hmark : s'.oldestLive = s.oldestLive := congrArg (·.2.1) henv
  have htime : j.time = t := by
    change j.body.time = t
    rw [hb]
  have hexp : j.exptime = i.exptime := by
    change j.body.exptime = i.body.exptime
    rw [hb]
  unfold flushedOrExpired at hlive ⊢
  rw [hnow, hmark, htime, hexp]
  obtain rfl | rfl := ht
  · exact hlive
  · rw [Bool.or_eq_false_iff] at hlive ⊢
    refine ⟨Bool.eq_false_iff.mpr fun hdead => Bool.eq_false_iff.mp hlive.1 ?_, hlive.2⟩
    simp only [Bool.and_eq_true, decide_eq_true_eq] at hdead ⊢
    exact ⟨hdead.1, UInt32.le_trans hpast hdead.2⟩

/-- The item that is found, at the head of its queue. -/
theorem Got.updated {s' : Store} {old : Ptr} (hg : Got cfg s held key s' old) :
    ((doItemUpdate s' old).mem old).linked = true ∧ (doItemUpdate s' old).key old = key ∧
      ∃ t, ((doItemUpdate s' old).mem old).body = { (s.mem old).body with time := t } ∧
        (t = (s.mem old).time ∨ t = s.currentTime) := by
  obtain ⟨t, hb, hl, -, ht⟩ := update_mem s' old old
  have hbody : ((doItemUpdate s' old).mem old).body = { (s.mem old).body with time := t } := by rw [hb, hg.body]
  refine ⟨hl.trans hg.stored, ?_, t, hbody, ?_⟩
  · refine Eq.trans ?_ ((key_of_body (hg.body old)).symm.trans hg.key)
    change itemKey ((doItemUpdate s' old).mem old).body = itemKey (s.mem old).body
    rw [hbody]
    rfl
  · exact ht.imp (fun ht => ht.trans (time_of_body (hg.body old))) fun ht => ht.2.trans (congrArg (·.1) hg.env)

/-- A retrieval leaves what the store has for the keys as it is. -/
theorem getItem_lookup (h : ClientInv cfg ⟨s, held⟩) (hr : RoomAt cfg s key) (k : Bytes) :
    lookup cfg (getItem cfg s key).1 k = lookup cfg s k := by
  have hok := (getItem_inv h hr).ok
  unfold getItem at hok ⊢
  rcases doItemGet_outcome h.ok hr with ⟨s', he, hg⟩ | ⟨s', old, he, hg⟩
  · rw [he]
    by_cases hk : k = key
    · rw [hk, (hg.lookup_none h.ok h.rebal).1]
      exact (hg.lookup_none h.ok h.rebal).2
    · exact hg.others.lookup h.ok (hg.ok h.ok) hk
  · rw [he] at hok ⊢
    have hlinked : (s.mem old).linked = true := (hg.linked old).symm.trans hg.stored
    have hkey : s.key old = key := (key_of_body (hg.body old)).symm.trans hg.key
    have henv : (doItemUpdate s' old).env = s.env := (env_update s' old).1.trans hg.env
    obtain ⟨hlinked', hkey', t, hbody, ht⟩ := hg.updated
    by_cases hk : k = key
    · subst hk
      have hlive := live_update henv (h.order.past old hlinked) hbody ht hg.live
      have hentry : itemEntry ((doItemUpdate s' old).mem old) = itemEntry (s.mem old) := by
        change itemEntry ((doItemUpdate s' old).mem old).body = itemEntry (s.mem old).body
        rw [hbody]
        rfl
      rw [lookup_eq hok hlinked' hkey', lookup_eq h.ok hlinked hkey, hlive, hg.live, hentry]
    · have hothers : OthersKept s (doItemUpdate s' old) key := by
        refine .of_mem ⟨congrArg (·.1) henv, congrArg (·.2.1) henv⟩ fun p hp => ?_
        have hne : p ≠ old := by
          rintro rfl
          exact hp.elim (fun hp => hp hkey) fun hp => hp hkey'
        have hsame := (hg.untouched p).trans (untouched_update hne)
        exact ⟨hsame.linked, hsame.body⟩
      exact hothers.lookup h.ok hok hk

theorem getItem_blocks (h : ClientInv cfg ⟨s, held⟩) (hb : BlocksHold s given) (hr : RoomAt cfg s key) :
    BlocksHold (getItem cfg s key).1 given := by
  have hstep : ClientStep cfg 0 ⟨s, held⟩ (.get key) _ := .get s held key
  have hq : Unhindered cfg 0 ⟨s, held⟩ (.get key) := hr
  exact plain_keeps_blocks h hq trivial hb hstep

/-- An item that a retrieval found, as the client may rely on it. -/
structure Printable (cfg : Settings) (s : Store) (key : Bytes) (i : Item) : Prop where
  named : itemKey i = key
  suffix : ∃ flags, itemSuffix i = headerSuffix flags i.nbytes
  holds : ∃ value, HoldsValue i value
  entry : lookup cfg s key = some (itemEntry i)

theorem getItem_readable (h : ClientInv cfg ⟨s, held⟩) (hb : BlocksHold s given) (hr : RoomAt cfg s key)
    (hg : (getItem cfg s key).2 = some it) : Printable cfg s key ((getItem cfg s key).1.mem it) := by
  have hentry := getItem_reads h.ok hr hg
  have hblocks := getItem_blocks h hb hr
  have hinv := getItem_inv h hr
  have hfound : ((getItem cfg s key).1.mem it).linked = true ∧ (getItem cfg s key).1.key it = key := by
    unfold getItem at hg ⊢
    rcases doItemGet_outcome h.ok hr with ⟨s', he, -⟩ | ⟨s', old, he, hgot⟩
    · rw [he] at hg
      cases hg
    · rw [he] at hg ⊢
      cases hg
      exact ⟨hgot.updated.1, hgot.updated.2.1⟩
  obtain ⟨hlinked, hkey⟩ := hfound
  obtain ⟨value, -, hvalue⟩ := hblocks it hlinked
  exact ⟨hkey, (hinv.items it (.inl hlinked)).suffix, ⟨value, hvalue⟩, hentry⟩

/-- Nothing is found where the store has nothing. -/
theorem getItem_misses (h : ClientInv cfg ⟨s, held⟩) (hr : RoomAt cfg s key) (hg : (getItem cfg s key).2 = none) :
    lookup cfg s key = none := by
  unfold getItem at hg
  rcases doItemGet_outcome h.ok hr with ⟨s', he, hmiss⟩ | ⟨s', old, he, -⟩
  · exact (hmiss.lookup_none h.ok h.rebal).1
  · rw [he] at hg
    cases hg

end

/-! ## Retrievals -/

/-- No reference count is full when a key is looked up. -/
def RoomFor (cfg : Settings) : List Bytes → Store → Prop
  | [], _ => True
  | key :: keys, s => RoomAt cfg s key ∧ RoomFor cfg keys (getItem cfg s key).1

section

variable {cfg : Config} {processStarted : Int} {s : Store} {held : Ptr → Nat} {given : Bytes → Option Bytes} {keys : List Bytes}

/-- What the store has for keys, one after the other. -/
def repliesOf (cfg : Settings) (s : Store) (withCas : Bool) (keys : List Bytes) : List TextReply :=
  keys.filterMap fun key => (lookup cfg s key).map (replyOf withCas key)

/-- The hits are read back one after the other, as the store had them when the first was looked up. -/
theorem lookUp_takes (withCas : Bool) (h : ClientInv cfg.toSettings ⟨s, held⟩) (hb : BlocksHold s given)
    (hr : RoomFor cfg.toSettings keys s) (hwords : ∀ key ∈ keys, space ∉ key) :
    List.Forall₂ (fun text reply => (readNext withCas).Takes text (some reply))
      ((lookUp cfg keys s).2.map fun hit => valueResponse withCas hit.2) (repliesOf cfg.toSettings s withCas keys) := by
  induction keys generalizing s held with
  | nil => exact .nil
  | cons key keys ih =>
    obtain ⟨hroom, hrest⟩ := hr
    have hrest' := ih (getItem_inv h hroom) (getItem_blocks h hb hroom) hrest fun k hk => hwords k (List.mem_cons_of_mem _ hk)
    have hsame : repliesOf cfg.toSettings (getItem cfg.toSettings s key).1 withCas keys = repliesOf cfg.toSettings s withCas keys := by
      unfold repliesOf
      simp only [getItem_lookup h hroom]
    rw [hsame] at hrest'
    cases hg : (getItem cfg.toSettings s key).2 with
    | none =>
      have hnone := getItem_misses h hroom hg
      simpa only [lookUp, hg, repliesOf, List.filterMap_cons, hnone, Option.map_none] using hrest'
    | some it =>
      have hfound := getItem_readable h hb hroom hg
      obtain ⟨flags, hsuffix⟩ := hfound.suffix
      obtain ⟨value, hvalue⟩ := hfound.holds
      have hkey : space ∉ itemKey ((getItem cfg.toSettings s key).1.mem it) := by
        rw [hfound.named]
        exact hwords key List.mem_cons_self
      have htakes := readNext_takes withCas hsuffix hvalue hkey
      rw [hfound.named] at htakes
      simp only [lookUp, hg, repliesOf, List.filterMap_cons, hfound.entry, Option.map_some, List.map_cons]
      exact .cons htakes hrest'

/-- A value that is found is the one that the key was given. -/
theorem repliesOf_given {withCas : Bool} {reply : TextReply} (h : ClientInv cfg.toSettings ⟨s, held⟩) (hb : BlocksHold s given)
    (hm : reply ∈ repliesOf cfg.toSettings s withCas keys) : given reply.key = some reply.value := by
  obtain ⟨key, -, hreply⟩ := List.mem_filterMap.mp hm
  obtain ⟨e, he, rfl⟩ := Option.map_eq_some_iff.mp hreply
  obtain ⟨p, hlinked, hkey, -, rfl⟩ := (lookup_some h.ok).mp he
  obtain ⟨value, hgiven, hvalue⟩ := hb p hlinked
  rw [← hkey, replyOf]
  exact hgiven.trans (congrArg some hvalue.value.symm)

/-- The response to a retrieval is read back, whatever bytes the values have and whatever follows it: the client is told
what the store has for the keys of the line, in their order, each with the value that the commands gave the key. -/
theorem text_replies_read_back {k : Nat} {ops : List ValueOp} {v : StoreValues}
    (hr : Run (Guarded (KeepsBlocks cfg.toSettings processStarted) (ValueStep cfg.toSettings processStarted)) (valuesInit k) ops v)
    (env : Env) (c : Conn) (g : Globals) (leftCom : Bytes) (hg : g.store = v.items.store) {line name : Bytes}
    (hwords : lineWords line = name :: keys) (hname : name = ascii "get" ∨ name = ascii "gets") (hne : keys ≠ [])
    (hkeys : ∀ key ∈ keys, key.length ≤ KEY_MAX_LENGTH) (hroom : RoomFor cfg.toSettings keys g.store) :
    ∃ c' g', processCommand cfg env c g line leftCom = some (c', g', 0) ∧
      (readReplies (name == ascii "gets")).Takes c'.out (repliesOf cfg.toSettings g.store (name == ascii "gets") keys) ∧
      ∀ reply ∈ repliesOf cfg.toSettings g.store (name == ascii "gets") keys, v.given reply.key = some reply.value := by
  have hempty : BlocksHold (valuesInit k).items.store (valuesInit k).given := by
    intro p hp
    simp [valuesInit, itemsInit, storeInit, emptyItem] at hp
  obtain ⟨hinv, hblocks⟩ := hr.invariant_of_guard (I := fun v => ClientInv cfg.toSettings v.items ∧ BlocksHold v.items.store v.given)
    (fun _ _ _ hi hq hs => hs.keeps hi.1 hi.2 hq) ⟨clientInv_init cfg.toSettings k, hempty⟩
  rw [hg] at hroom
  have hspace : ∀ key ∈ keys, space ∉ key := by
    intro key hk hmem
    have hword : key ∈ lineWords line := hwords ▸ List.mem_cons_of_mem name hk
    simpa using ((mem_tokens hword).2 space hmem).1
  have hhits := processGetKeys_hits cfg (name == ascii "gets") hkeys [] (c := c) (g := g) (by simp)
  simp only [List.length_nil, List.map_nil, List.flatten_nil, List.nil_append] at hhits
  generalize hrun : processGetKeys cfg (name == ascii "gets") keys 0 [] c g = r at hhits
  obtain ⟨c', g'⟩ := r
  obtain ⟨ilist, hc'⟩ := hhits.1.same
  refine ⟨c', g', ?_, ?_, fun reply hm => ?_⟩
  · rw [processCommand_get cfg env c g leftCom hwords hname hne, hrun]
    rfl
  · have hout : c'.out = ((lookUp cfg keys v.items.store).2.map fun hit => valueResponse (name == ascii "gets") hit.2).flatten ++
        (ascii "END" ++ [CR, LF]) := by
      rw [← hg]
      exact (congrArg Conn.out hc').trans (List.append_assoc ..)
    rw [hout, hg]
    exact Reader.takes_many (lookUp_takes (name == ascii "gets") hinv hblocks hroom hspace) (Reader.takes_stop _ _)
  · rw [hg] at hm
    exact repliesOf_given hinv hblocks hm

end

/-- The server after a set of a value of 22 bytes. -/
def valueServer : Globals := { globalsInit 16 with store := blockSet.items.store }

theorem text_replies_read_back_set : ∃ c', (readReplies true).Takes (Conn.out c') [⟨[107], 0, List.replicate 22 118, some 1⟩] := by
  have hset : ValueStep oneClass 0 ⟨blockAlloc [107], fun _ => none⟩
      (.nreadAscii noPage 7096 .set (List.replicate 22 118 ++ [13, 10])) blockSet := by
    unfold blockSet
    exact .nreadAscii (blockAlloc [107]).store (blockAlloc [107]).held (fun _ => none) noPage 7096 .set _
      (by decide +kernel) (by decide +kernel) (by decide +kernel)
  have q1 : KeepsBlocks oneClass 0 (valuesInit 16) (.incrAlloc fourChunks [107] 0) :=
    ⟨by simp [FreshPage, fourChunks, valuesInit, itemsInit, storeInit], rfl⟩
  have q2 : KeepsBlocks oneClass 0 ⟨blockAlloc [107], fun _ => none⟩
      (.nreadAscii noPage 7096 .set (List.replicate 22 118 ++ [13, 10])) :=
    ⟨by decide +kernel, by decide +kernel, .inl rfl, fun _ _ _ => .inl rfl,
      fun _ _ _ hm => hm.1.elim (by simp) (by simp)⟩
  have hline : lineWords (ascii "gets k") = [ascii "gets", [107]] ∧ (ascii "gets" == ascii "gets") = true ∧
      repliesOf oneClass blockSet.items.store true [[107]] = [⟨[107], 0, List.replicate 22 118, some 1⟩] := by
    decide +kernel
  obtain ⟨hwords, hname, hreplies⟩ := hline
  obtain ⟨c', g', -, htakes, -⟩ := @text_replies_read_back smallServer 0 [[107]] 16 _ blockSet
    (.cons ⟨q1, blockAlloc_step [107]⟩ (.single ⟨q2, hset⟩)) default (connNew smallServer 4096 .read .tcp) valueServer [] rfl _ _
    hwords (.inr rfl) (by simp) (by simp [KEY_MAX_LENGTH]) ⟨fun _ _ _ => .inl rfl, trivial⟩
  rw [hname] at htakes
  exact ⟨c', hreplies ▸ htakes⟩

end RamCube
