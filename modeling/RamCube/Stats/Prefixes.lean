import Mathlib.Data.List.Perm.Basic
import RamCube.Lib.Bytes
import RamCube.Lib.Run

/-! # Statistics by prefix of the key (stats.c)

The entries are kept in a fixed table of buckets by the hash of the prefix, each a list whose
newest entry stands first. An entry is found with `strncmp` over the length of the prefix that
is looked for, so what is found may be an entry whose prefix goes on behind that. -/
namespace RamCube

def PREFIX_HASH_SIZE : Nat := 256

/-- `struct _prefix_stats`; `prefixText` is without the zero at its end. -/
structure PrefixEntry where
  prefixText : Bytes
  prefixLen : Nat
  numGets : UInt64
  numSets : UInt64
  numDeletes : UInt64
  numHits : UInt64
deriving DecidableEq

/-- `prefix_stats`, `num_prefixes` and `total_prefix_size`. -/
structure PrefixTable where
  bucket : Nat → List PrefixEntry
  numPrefixes : Int32
  totalPrefixSize : Int32

/-- What is recorded of a key. -/
inductive PrefixEvent where
  | get (isHit : Bool)
  | set
  | delete
deriving DecidableEq

/-- A call; `granted` tells whether there is memory for one more entry. -/
inductive PrefixCall where
  | record (key : Bytes) (event : PrefixEvent) (granted : Bool)
  | clear
deriving DecidableEq

/-- `strncmp(s, key, n) == 0`; behind the end of a string stands its zero. -/
def strncmpEq : Bytes → Bytes → Nat → Bool
  | _, _, 0 => true
  | s, key, n + 1 => s.headD 0 == key.headD 0 && (s.headD 0 == 0 || strncmpEq s.tail key.tail n)

/-- The loop over the key: where its first delimiter stands, `none` for `bailout`. -/
def prefixLength (delim : UInt8) : Bytes → Option Nat
  | [] => none
  | b :: key =>
    if b = 0 then none
    else if b = delim then some 0
    else (prefixLength delim key).map (· + 1)

def newPrefix (text : Bytes) : PrefixEntry := ⟨text, text.length, 0, 0, 0, 0⟩

def PrefixEvent.count (event : PrefixEvent) (pfs : PrefixEntry) : PrefixEntry :=
  match event with
  | .get isHit =>
    { pfs with
      numGets := pfs.numGets + 1
      numHits := if isHit then pfs.numHits + 1 else pfs.numHits }
  | .set => { pfs with numSets := pfs.numSets + 1 }
  | .delete => { pfs with numDeletes := pfs.numDeletes + 1 }

namespace PrefixTable

def empty : PrefixTable := ⟨fun _ => [], 0, 0⟩

/-- All entries, in the order in which a dump writes them. -/
def entries (t : PrefixTable) : List PrefixEntry := (List.range PREFIX_HASH_SIZE).flatMap t.bucket

def texts (t : PrefixTable) : List Bytes := t.entries.map PrefixEntry.prefixText

end PrefixTable

section

variable (hash : Bytes → UInt32) (delim : UInt8)

def prefixBucket (text : Bytes) : Nat := (hash text).toNat % PREFIX_HASH_SIZE

/-- The entry that is found or made, told by its bucket and its place there. -/
def statsPrefixFind (granted : Bool) (t : PrefixTable) (key : Bytes) : PrefixTable × Option (Nat × Nat) :=
  match prefixLength delim key with
  | none => (t, none)
  | some length =>
    let hashval := prefixBucket hash (key.take length)
    match (t.bucket hashval).findIdx? fun pfs => strncmpEq pfs.prefixText key length with
    | some i => (t, some (hashval, i))
    | none =>
      if granted then
        ({ bucket := Function.update t.bucket hashval (newPrefix (key.take length) :: t.bucket hashval)
           numPrefixes := t.numPrefixes + 1
           totalPrefixSize := t.totalPrefixSize + Int32.ofNat length }, some (hashval, 0))
      else (t, none)

/-- The functions that record differ in the counters that they count up. -/
def statsPrefixRecord (event : PrefixEvent) (granted : Bool) (t : PrefixTable) (key : Bytes) : PrefixTable :=
  match statsPrefixFind hash delim granted t key with
  | (t, none) => t
  | (t, some (hashval, i)) =>
    { t with bucket := Function.update t.bucket hashval ((t.bucket hashval).modify i event.count) }

def statsPrefixRecordGet (granted : Bool) (t : PrefixTable) (key : Bytes) (isHit : Bool) : PrefixTable :=
  statsPrefixRecord hash delim (.get isHit) granted t key

def statsPrefixRecordDelete (granted : Bool) (t : PrefixTable) (key : Bytes) : PrefixTable :=
  statsPrefixRecord hash delim .delete granted t key

def statsPrefixRecordSet (granted : Bool) (t : PrefixTable) (key : Bytes) : PrefixTable :=
  statsPrefixRecord hash delim .set granted t key

def statsPrefixClear (_ : PrefixTable) : PrefixTable := .empty

def PrefixTable.call (t : PrefixTable) : PrefixCall → PrefixTable
  | .record key (.get isHit) granted => statsPrefixRecordGet hash delim granted t key isHit
  | .record key .set granted => statsPrefixRecordSet hash delim granted t key
  | .record key .delete granted => statsPrefixRecordDelete hash delim granted t key
  | .clear => statsPrefixClear t

def PrefixStep (t : PrefixTable) (c : PrefixCall) (t' : PrefixTable) : Prop := t' = t.call hash delim c

end

/-! ## What should be counted -/

/-- The key up to the first delimiter. -/
def keyPrefix (delim : UInt8) (key : Bytes) : Option Bytes :=
  if delim ∈ key then some (key.takeWhile (· != delim)) else none

/-- The calls since the last clear. -/
def sinceClear (calls : List PrefixCall) : List PrefixCall :=
  calls.foldl (fun seen c => if c = .clear then [] else seen ++ [c]) []

/-- The number of calls of a kind for keys with exactly this prefix. -/
def recordings (delim : UInt8) (text : Bytes) (kind : PrefixEvent → Bool) (calls : List PrefixCall) : Nat :=
  calls.countP fun
    | .record key event _ => kind event && keyPrefix delim key == some text
    | .clear => false

/-- The counters of an entry. -/
inductive PrefixCounter where
  | gets
  | hits
  | sets
  | deletes

def PrefixCounter.value (pfs : PrefixEntry) : PrefixCounter → UInt64
  | gets => pfs.numGets
  | hits => pfs.numHits
  | sets => pfs.numSets
  | deletes => pfs.numDeletes

/-- What a counter counts. -/
def PrefixCounter.kind : PrefixCounter → PrefixEvent → Bool
  | gets, .get _ => true
  | hits, .get isHit => isHit
  | sets, .set => true
  | deletes, .delete => true
  | _, _ => false

/-- One entry for each prefix that was recorded, with the numbers of its recordings. -/
structure PrefixesExact (delim : UInt8) (calls : List PrefixCall) (t : PrefixTable) : Prop where
  once : t.texts.Nodup
  entered : ∀ text, text ∈ t.texts ↔ 0 < recordings delim text (fun _ => true) calls
  counted : ∀ pfs ∈ t.entries, ∀ k : PrefixCounter, (k.value pfs).toNat = recordings delim pfs.prefixText k.kind calls

/-- Where the delimiter of a key with a prefix is found, and what stands before it. -/
def Plain (delim : UInt8) (text : Bytes) : Prop := 0 ∉ text ∧ delim ≠ 0

section

variable {hash : Bytes → UInt32} {delim : UInt8} {t t' : PrefixTable} {text key s : Bytes} {n h i : Nat}
  {pfs : PrefixEntry} {event : PrefixEvent} {granted : Bool}

/-! ## Finding a prefix -/

theorem prefixLength_some (hl : prefixLength delim key = some n) :
    keyPrefix delim key = some (key.take n) ∧ Plain delim (key.take n) ∧ n < key.length := by
  induction key generalizing n with
  | nil => cases hl
  | cons b key ih =>
    rw [prefixLength] at hl
    split at hl
    · cases hl
    · rename_i hb
      split at hl
      · rename_i hd
        obtain rfl := Option.some.inj hl
        simp [keyPrefix, Plain, ← hd, hb]
      · rename_i hd
        obtain ⟨m, hm, rfl⟩ := Option.map_eq_some_iff.mp hl
        obtain ⟨hkey, ⟨hzero, hdelim⟩, hlt⟩ := ih hm
        have hmem : delim ∈ key := by
          by_contra hnot
          rw [keyPrefix, if_neg hnot] at hkey
          cases hkey
        rw [keyPrefix, if_pos hmem, Option.some.injEq] at hkey
        refine ⟨?_, ⟨?_, hdelim⟩, by simpa using hlt⟩
        · rw [keyPrefix, if_pos (List.mem_cons_of_mem b hmem), List.takeWhile_cons_of_pos (by simpa using hd), hkey,
            List.take_succ_cons]
        · rw [List.take_succ_cons, List.mem_cons, not_or]
          exact ⟨Ne.symm hb, hzero⟩

/-- The loop finds a delimiter unless a zero stands before it. -/
theorem prefixLength_plain (hk : keyPrefix delim key = some text) (hp : Plain delim text) :
    prefixLength delim key = some text.length ∧ key.take text.length = text := by
  induction key generalizing text with
  | nil =>
    rw [keyPrefix, if_neg List.not_mem_nil] at hk
    cases hk
  | cons b key ih =>
    have hmem : delim ∈ b :: key := by
      by_contra hnot
      rw [keyPrefix, if_neg hnot] at hk
      cases hk
    rw [keyPrefix, if_pos hmem, Option.some.injEq] at hk
    by_cases hd : b = delim
    · rw [List.takeWhile_cons_of_neg (by simpa using hd)] at hk
      subst hk
      refine ⟨?_, rfl⟩
      rw [prefixLength, if_neg (hd ▸ hp.2), if_pos hd]
      rfl
    · rw [List.takeWhile_cons_of_pos (by simpa using hd)] at hk
      subst hk
      have hrest : delim ∈ key := (List.mem_cons.mp hmem).resolve_left (Ne.symm hd)
      have hzero := List.mem_cons.not.mp hp.1
      rw [not_or] at hzero
      obtain ⟨hlen, htake⟩ := ih (by rw [keyPrefix, if_pos hrest]) ⟨hzero.2, hp.2⟩
      refine ⟨?_, ?_⟩
      · rw [prefixLength, if_neg (Ne.symm hzero.1), if_neg hd, hlen]
        rfl
      · rw [List.length_cons, List.take_succ_cons, htake]

/-- `strncmp` over the length of a prefix tells whether a string starts with it. -/
theorem strncmpEq_iff (hn : n ≤ key.length) (hzero : 0 ∉ key.take n) :
    strncmpEq s key n = true ↔ key.take n <+: s := by
  induction n generalizing s key with
  | zero => simp [strncmpEq]
  | succ n ih =>
    cases key with
    | nil => simp at hn
    | cons b key =>
      rw [List.take_succ_cons, List.mem_cons, not_or] at hzero
      have hrest := ih (s := s.tail) (by simpa using hn) hzero.2
      cases s with
      | nil => simpa [strncmpEq] using hzero.1
      | cons c s =>
        rw [List.tail_cons] at hrest
        rw [strncmpEq, List.take_succ_cons, List.cons_prefix_cons, ← hrest]
        simp only [List.headD_cons, List.tail_cons, Bool.and_eq_true, Bool.or_eq_true, beq_iff_eq]
        constructor
        · rintro ⟨rfl, h0 | h⟩
          · exact absurd h0 (Ne.symm hzero.1)
          · exact ⟨rfl, h⟩
        · rintro ⟨rfl, h⟩
          exact ⟨rfl, .inr h⟩

/-! ## The table -/

/-- What holds of the table whatever was recorded. A newer entry stands before an older one,
and is made only where no entry of the bucket starts with its prefix. -/
structure PrefixTableOk (hash : Bytes → UInt32) (t : PrefixTable) : Prop where
  placed : ∀ h, ∀ pfs ∈ t.bucket h, prefixBucket hash pfs.prefixText = h
  plain : ∀ h, ∀ pfs ∈ t.bucket h, 0 ∉ pfs.prefixText ∧ pfs.prefixLen = pfs.prefixText.length
  order : ∀ h, (t.bucket h).Pairwise fun pfs older => ¬pfs.prefixText <+: older.prefixText
  number : t.numPrefixes = Int32.ofNat t.entries.length
  total : t.totalPrefixSize = Int32.ofNat (t.entries.map PrefixEntry.prefixLen).sum

theorem prefixBucket_lt : prefixBucket hash text < PREFIX_HASH_SIZE := Nat.mod_lt _ (by decide)

namespace PrefixTable

@[simp]
theorem entries_empty : empty.entries = [] := by simp [entries, empty]

theorem mem_entries : pfs ∈ t.entries ↔ ∃ h < PREFIX_HASH_SIZE, pfs ∈ t.bucket h := by
  simp [entries, List.mem_flatMap]

/-- One more entry at the head of a bucket. -/
theorem entries_cons (hh : h < PREFIX_HASH_SIZE) (ht' : t'.bucket = Function.update t.bucket h (pfs :: t.bucket h)) :
    t'.entries.Perm (pfs :: t.entries) := by
  have hsplit := List.perm_cons_erase (List.mem_range.mpr hh)
  have hrest : ∀ k ∈ (List.range PREFIX_HASH_SIZE).erase h, k ≠ h := fun k hk =>
    ((List.Nodup.mem_erase_iff List.nodup_range).mp hk).1
  have hsame : ((List.range PREFIX_HASH_SIZE).erase h).flatMap (Function.update t.bucket h (pfs :: t.bucket h)) =
      ((List.range PREFIX_HASH_SIZE).erase h).flatMap t.bucket :=
    List.flatMap_congr fun k hk => Function.update_of_ne (hrest k hk) ..
  refine (hsplit.flatMap_right _).trans ?_
  rw [ht', List.flatMap_cons, Function.update_self, hsame, List.cons_append]
  refine List.Perm.cons pfs ?_
  rw [← List.flatMap_cons]
  exact (hsplit.flatMap_right _).symm

/-- What is the same of every bucket is the same of all entries. -/
theorem map_entries_congr {α : Type} {f : PrefixEntry → α} (hf : ∀ h, (t'.bucket h).map f = (t.bucket h).map f) :
    t'.entries.map f = t.entries.map f := by
  rw [entries, entries, List.map_flatMap, List.map_flatMap]
  exact List.flatMap_congr fun k _ => hf k

end PrefixTable

namespace PrefixTableOk

theorem mem (ht : PrefixTableOk hash t) : pfs ∈ t.entries ↔ pfs ∈ t.bucket (prefixBucket hash pfs.prefixText) := by
  rw [PrefixTable.mem_entries]
  constructor
  · rintro ⟨h, -, hm⟩
    rwa [ht.placed h pfs hm]
  · intro hm
    exact ⟨_, prefixBucket_lt, hm⟩

theorem texts_nodup (ht : PrefixTableOk hash t) : t.texts.Nodup := by
  rw [PrefixTable.texts, PrefixTable.entries, List.map_flatMap, List.nodup_flatMap]
  constructor
  · intro h _
    rw [List.Nodup, List.pairwise_map]
    refine (ht.order h).imp ?_
    rintro a b hab he
    exact hab (he ▸ List.prefix_rfl)
  · refine List.nodup_range.imp ?_
    rintro h k hne x hx hy
    obtain ⟨a, ha, rfl⟩ := List.mem_map.mp hx
    obtain ⟨b, hb, he⟩ := List.mem_map.mp hy
    exact hne ((ht.placed h a ha).symm.trans (he ▸ ht.placed k b hb))

end PrefixTableOk

/-- All of an entry that is not a counter. -/
def PrefixEntry.shape (pfs : PrefixEntry) : Bytes × Nat := (pfs.prefixText, pfs.prefixLen)

/-- Two tables that differ in their counters only. -/
structure SameShape (t t' : PrefixTable) : Prop where
  buckets : ∀ h, (t'.bucket h).map PrefixEntry.shape = (t.bucket h).map PrefixEntry.shape
  number : t'.numPrefixes = t.numPrefixes
  total : t'.totalPrefixSize = t.totalPrefixSize

theorem SameShape.entries (hs : SameShape t t') :
    t'.entries.map PrefixEntry.shape = t.entries.map PrefixEntry.shape := PrefixTable.map_entries_congr hs.buckets

theorem SameShape.map {α : Type} (hs : SameShape t t') (f : Bytes × Nat → α) :
    t'.entries.map (fun pfs => f pfs.shape) = t.entries.map (fun pfs => f pfs.shape) := by
  have h := congrArg (List.map f) hs.entries
  rwa [List.map_map, List.map_map] at h

theorem PrefixTableOk.sameShape (ht : PrefixTableOk hash t) (hs : SameShape t t') : PrefixTableOk hash t' := by
  have hback : ∀ h, ∀ pfs ∈ t'.bucket h, ∃ old ∈ t.bucket h, old.shape = pfs.shape := by
    intro h pfs hm
    have hshape := List.mem_map_of_mem (f := PrefixEntry.shape) hm
    rw [hs.buckets h] at hshape
    exact List.mem_map.mp hshape
  constructor
  · intro h pfs hm
    obtain ⟨old, ho, he⟩ := hback h pfs hm
    have htext : old.prefixText = pfs.prefixText := congrArg Prod.fst he
    rw [← htext]
    exact ht.placed h old ho
  · intro h pfs hm
    obtain ⟨old, ho, he⟩ := hback h pfs hm
    obtain ⟨htext, hlen⟩ := Prod.ext_iff.mp he
    dsimp only [PrefixEntry.shape] at htext hlen
    rw [← htext, ← hlen]
    exact ht.plain h old ho
  · intro h
    have horder : ((t.bucket h).map PrefixEntry.shape).Pairwise fun a b => ¬a.1 <+: b.1 :=
      List.pairwise_map.mpr (ht.order h)
    rw [← hs.buckets h] at horder
    exact List.pairwise_map.mp horder
  · have hlen := congrArg List.length hs.entries
    rw [List.length_map, List.length_map] at hlen
    rw [hs.number, ht.number, hlen]
  · rw [hs.total, ht.total]
    exact congrArg (fun l => Int32.ofNat (List.sum l)) (hs.map Prod.snd).symm

theorem prefixTableOk_empty : PrefixTableOk hash .empty where
  placed := nofun
  plain := nofun
  order _ := List.Pairwise.nil
  number := by
    rw [PrefixTable.entries_empty]
    rfl
  total := by
    rw [PrefixTable.entries_empty]
    rfl

/-- The entry that is found, or the one that is made where none starts with the prefix. -/
inductive PrefixFound (hash : Bytes → UInt32) (t : PrefixTable) (text : Bytes) : Bool → PrefixTable → Option (Nat × Nat) → Prop where
  | old {granted : Bool} {i : Nat} {pfs : PrefixEntry} :
      (t.bucket (prefixBucket hash text))[i]? = some pfs → text <+: pfs.prefixText →
      (∀ j pfs', j < i → (t.bucket (prefixBucket hash text))[j]? = some pfs' → ¬text <+: pfs'.prefixText) →
      PrefixFound hash t text granted t (some (prefixBucket hash text, i))
  | fresh {t' : PrefixTable} : (∀ pfs ∈ t.bucket (prefixBucket hash text), ¬text <+: pfs.prefixText) →
      t'.bucket = Function.update t.bucket (prefixBucket hash text) (newPrefix text :: t.bucket (prefixBucket hash text)) →
      t'.numPrefixes = t.numPrefixes + 1 → t'.totalPrefixSize = t.totalPrefixSize + Int32.ofNat text.length →
      PrefixFound hash t text true t' (some (prefixBucket hash text, 0))
  | noMemory : (∀ pfs ∈ t.bucket (prefixBucket hash text), ¬text <+: pfs.prefixText) → PrefixFound hash t text false t none

theorem statsPrefixFind_none (hl : prefixLength delim key = none) :
    statsPrefixFind hash delim granted t key = (t, none) := by
  rw [statsPrefixFind, hl]

theorem statsPrefixFind_found (hl : prefixLength delim key = some n) :
    PrefixFound hash t (key.take n) granted (statsPrefixFind hash delim granted t key).1
      (statsPrefixFind hash delim granted t key).2 := by
  obtain ⟨-, ⟨hzero, -⟩, hn⟩ := prefixLength_some hl
  have hlen : (key.take n).length = n := List.length_take_of_le (Nat.le_of_lt hn)
  have hcmp : ∀ pfs : PrefixEntry, strncmpEq pfs.prefixText key n = true ↔ key.take n <+: pfs.prefixText :=
    fun pfs => strncmpEq_iff (Nat.le_of_lt hn) hzero
  rw [statsPrefixFind, hl]
  dsimp only
  cases hf : (t.bucket (prefixBucket hash (key.take n))).findIdx? fun pfs => strncmpEq pfs.prefixText key n with
  | some i =>
    obtain ⟨hi, hmatch, hbefore⟩ := List.findIdx?_eq_some_iff_getElem.mp hf
    refine .old (List.getElem?_eq_getElem hi) ((hcmp _).mp hmatch) fun j pfs' hj hpfs hpre => ?_
    obtain ⟨hj', rfl⟩ := List.getElem?_eq_some_iff.mp hpfs
    exact hbefore j hj ((hcmp _).mpr hpre)
  | none =>
    have hnone : ∀ pfs ∈ t.bucket (prefixBucket hash (key.take n)), ¬key.take n <+: pfs.prefixText := by
      intro pfs hm hpre
      have hno := List.findIdx?_eq_none_iff.mp hf pfs hm
      rw [(hcmp pfs).mpr hpre] at hno
      cases hno
    cases granted with
    | false => exact .noMemory hnone
    | true => exact .fresh hnone rfl rfl (congrArg (fun k => t.totalPrefixSize + Int32.ofNat k) hlen.symm)

theorem PrefixTableOk.fresh (ht : PrefixTableOk hash t) (hzero : 0 ∉ text)
    (hnone : ∀ pfs ∈ t.bucket (prefixBucket hash text), ¬text <+: pfs.prefixText)
    (hb : t'.bucket = Function.update t.bucket (prefixBucket hash text) (newPrefix text :: t.bucket (prefixBucket hash text)))
    (hn : t'.numPrefixes = t.numPrefixes + 1) (htot : t'.totalPrefixSize = t.totalPrefixSize + Int32.ofNat text.length) :
    PrefixTableOk hash t' := by
  have hcases : ∀ h, ∀ pfs ∈ t'.bucket h, (pfs = newPrefix text ∧ h = prefixBucket hash text) ∨ pfs ∈ t.bucket h := by
    intro h pfs hm
    rw [hb] at hm
    by_cases hh : h = prefixBucket hash text
    · rw [hh, Function.update_self] at hm
      exact (List.mem_cons.mp hm).imp (⟨·, hh⟩) (hh ▸ ·)
    · rw [Function.update_of_ne hh] at hm
      exact .inr hm
  have hperm := PrefixTable.entries_cons prefixBucket_lt hb
  constructor
  · intro h pfs hm
    obtain ⟨rfl, rfl⟩ | ho := hcases h pfs hm
    · rfl
    · exact ht.placed h pfs ho
  · intro h pfs hm
    obtain ⟨rfl, rfl⟩ | ho := hcases h pfs hm
    · exact ⟨hzero, rfl⟩
    · exact ht.plain h pfs ho
  · intro h
    rw [hb]
    by_cases hh : h = prefixBucket hash text
    · rw [hh, Function.update_self]
      exact List.Pairwise.cons hnone (ht.order _)
    · rw [Function.update_of_ne hh]
      exact ht.order h
  · rw [hn, ht.number, hperm.length_eq, List.length_cons, Int32.ofNat_add]
    rfl
  · rw [htot, ht.total, (hperm.map PrefixEntry.prefixLen).sum_eq, List.map_cons, List.sum_cons, Nat.add_comm, Int32.ofNat_add]
    rfl

theorem shape_count : (event.count pfs).shape = pfs.shape := by
  cases event <;> rfl

/-- An entry is counted up. -/
theorem sameShape_modify : SameShape t { t with bucket := Function.update t.bucket h ((t.bucket h).modify i event.count) } where
  buckets k := by
    dsimp only
    by_cases hk : k = h
    · rw [hk, Function.update_self]
      refine List.ext_getElem? fun j => ?_
      rw [List.getElem?_map, List.getElem?_map, List.getElem?_modify]
      cases (t.bucket h)[j]? with
      | none => rfl
      | some pfs =>
        simp only [Option.map_eq_map, Option.map_some]
        split
        · rw [shape_count]
        · rfl
    · rw [Function.update_of_ne hk]
  number := rfl
  total := rfl

theorem statsPrefixRecord_ok (ht : PrefixTableOk hash t) : PrefixTableOk hash (statsPrefixRecord hash delim event granted t key) := by
  rw [statsPrefixRecord]
  cases hl : prefixLength delim key with
  | none =>
    rw [statsPrefixFind_none hl]
    exact ht
  | some n =>
    obtain ⟨-, ⟨hzero, -⟩, -⟩ := prefixLength_some hl
    have hfound : PrefixFound hash t (key.take n) granted _ (statsPrefixFind hash delim granted t key).2 := statsPrefixFind_found hl
    generalize statsPrefixFind hash delim granted t key = r at hfound
    obtain ⟨t', found⟩ := r
    cases hfound with
    | old _ _ _ => exact ht.sameShape sameShape_modify
    | fresh hnone hb hn htot => exact (ht.fresh hzero hnone hb hn htot).sameShape sameShape_modify
    | noMemory _ => exact ht

/-- Every call keeps the table in order. -/
theorem PrefixTableOk.call (ht : PrefixTableOk hash t) (c : PrefixCall) : PrefixTableOk hash (t.call hash delim c) := by
  cases c with
  | clear => exact prefixTableOk_empty
  | record key event granted =>
    cases event <;> exact statsPrefixRecord_ok ht

/-! ## Counting -/

/-- The condition under which a recording for a key with a prefix is counted for that prefix:
no prefix with more behind it was recorded in the same bucket. -/
structure Countable (hash : Bytes → UInt32) (delim : UInt8) (t : PrefixTable) (text : Bytes) (event : PrefixEvent)
    (granted : Bool) : Prop where
  plain : Plain delim text
  alone : ∀ pfs ∈ t.entries, text <+: pfs.prefixText → prefixBucket hash pfs.prefixText = prefixBucket hash text →
    pfs.prefixText = text
  room : granted = true ∨ text ∈ t.texts
  fits : ∀ pfs ∈ t.entries, pfs.prefixText = text → ∀ k : PrefixCounter, k.kind event → (k.value pfs).toNat + 1 < 2 ^ 64

def PrefixGuard (hash : Bytes → UInt32) (delim : UInt8) (t : PrefixTable) : PrefixCall → Prop
  | .record key event granted => ∀ text, keyPrefix delim key = some text → Countable hash delim t text event granted
  | .clear => True

theorem mem_texts_bucket (ht : PrefixTableOk hash t) (hm : text ∈ t.texts) :
    ∃ pfs ∈ t.bucket (prefixBucket hash text), pfs.prefixText = text := by
  obtain ⟨pfs, hp, rfl⟩ := List.mem_map.mp hm
  exact ⟨pfs, ht.mem.mp hp, rfl⟩

/-- The entry of the prefix itself is found exactly if none in its bucket goes on behind it. -/
theorem found_own_iff (ht : PrefixTableOk hash t) (hf : PrefixFound hash t text granted t' (some (h, i))) :
    (∃ pfs, (t'.bucket h)[i]? = some pfs ∧ pfs.prefixText = text) ↔
      ∀ pfs ∈ t.bucket (prefixBucket hash text), text <+: pfs.prefixText → pfs.prefixText = text := by
  cases hf with
  | fresh hnone hb _ _ =>
    refine ⟨fun _ pfs hm hpre => absurd hpre (hnone pfs hm), fun _ => ⟨newPrefix text, ?_, rfl⟩⟩
    rw [hb, Function.update_self]
    rfl
  | @old _ _ pfs hi hpre hbefore =>
    constructor
    · rintro ⟨own, howni, hown⟩ other hm hother
      obtain rfl : own = pfs := Option.some.inj (howni.symm.trans hi)
      obtain ⟨j, hj⟩ := List.mem_iff_getElem?.mp hm
      obtain ⟨hilt, hie⟩ := List.getElem?_eq_some_iff.mp hi
      obtain ⟨hjlt, hje⟩ := List.getElem?_eq_some_iff.mp hj
      obtain hlt | rfl | hgt := Nat.lt_trichotomy i j
      · have horder := List.pairwise_iff_getElem.mp (ht.order _) i j hilt hjlt hlt
        rw [hie, hje, hown] at horder
        exact absurd hother horder
      · rwa [Option.some.inj (hj.symm.trans hi)]
      · exact absurd hother (hbefore j other hgt hj)
    · intro hall
      exact ⟨pfs, hi, hall pfs (List.mem_of_getElem? hi) hpre⟩

/-- What is found for a prefix that can be counted: the table with an entry of its own. -/
theorem found_countable (ht : PrefixTableOk hash t) (hc : Countable hash delim t text event granted)
    {found : Option (Nat × Nat)} (hf : PrefixFound hash t text granted t' found) :
    ∃ i pfs, found = some (prefixBucket hash text, i) ∧ (t'.bucket (prefixBucket hash text))[i]? = some pfs ∧
      pfs.prefixText = text ∧
      (t' = t ∨ text ∉ t.texts ∧ t'.entries.Perm (newPrefix text :: t.entries)) := by
  have halone : ∀ pfs ∈ t.bucket (prefixBucket hash text), text <+: pfs.prefixText → pfs.prefixText = text := by
    intro pfs hm hpre
    have hplace := ht.placed _ pfs hm
    exact hc.alone pfs (ht.mem.mpr (hplace ▸ hm)) hpre hplace
  have hnew : (∀ pfs ∈ t.bucket (prefixBucket hash text), ¬text <+: pfs.prefixText) → text ∉ t.texts := by
    intro hnone hm
    obtain ⟨pfs, hp, he⟩ := mem_texts_bucket ht hm
    exact hnone pfs hp (he ▸ List.prefix_rfl)
  have hown := fun i (hf' : PrefixFound hash t text granted t' (some (prefixBucket hash text, i))) => (found_own_iff ht hf').mpr halone
  cases hf with
  | old hi hpre hbefore =>
    obtain ⟨pfs, hpfs, htext⟩ := hown _ (.old hi hpre hbefore)
    exact ⟨_, pfs, rfl, hpfs, htext, .inl rfl⟩
  | fresh hnone hb hn htot =>
    obtain ⟨pfs, hpfs, htext⟩ := hown _ (.fresh hnone hb hn htot)
    exact ⟨_, pfs, rfl, hpfs, htext, .inr ⟨hnew hnone, PrefixTable.entries_cons prefixBucket_lt hb⟩⟩
  | noMemory hnone =>
    obtain hg | hm := hc.room
    · cases hg
    · exact absurd hm (hnew hnone)

theorem value_count (k : PrefixCounter) :
    k.value (event.count pfs) = if k.kind event then k.value pfs + 1 else k.value pfs := by
  cases k <;> cases event <;> rfl

theorem recordings_concat {kind : PrefixEvent → Bool} {calls : List PrefixCall} :
    recordings delim s kind (calls ++ [.record key event granted]) =
      recordings delim s kind calls + if kind event && keyPrefix delim key == some s then 1 else 0 := by
  rw [recordings, List.countP_append, List.countP_singleton]
  rfl

theorem recordings_le {kind : PrefixEvent → Bool} {calls : List PrefixCall} :
    recordings delim s kind calls ≤ recordings delim s (fun _ => true) calls := by
  refine List.countP_mono_left fun c _ hc => ?_
  cases c with
  | clear => exact hc
  | record key event granted =>
    dsimp only at hc ⊢
    rw [Bool.and_eq_true] at hc
    rw [hc.2]
    rfl

/-- Only the entry of the prefix is counted up. -/
theorem mem_counted (ht : PrefixTableOk hash t) (hi : (t.bucket (prefixBucket hash text))[i]? = some pfs)
    (htext : pfs.prefixText = text)
    (hb : t'.bucket = Function.update t.bucket (prefixBucket hash text) ((t.bucket (prefixBucket hash text)).modify i event.count))
    {x : PrefixEntry} (hx : x ∈ t'.entries) :
    ∃ old ∈ t.entries, x = if old.prefixText = text then event.count old else old := by
  obtain ⟨k, -, hm⟩ := PrefixTable.mem_entries.mp hx
  rw [hb] at hm
  by_cases hk : k = prefixBucket hash text
  · rw [hk, Function.update_self] at hm
    obtain ⟨j, hj⟩ := List.mem_iff_getElem?.mp hm
    rw [List.getElem?_modify] at hj
    obtain ⟨old, hold, rfl⟩ := Option.map_eq_some_iff.mp hj
    have hmem := List.mem_of_getElem? hold
    refine ⟨old, ht.mem.mpr ((ht.placed _ old hmem).symm ▸ hmem), ?_⟩
    by_cases hij : i = j
    · subst hij
      obtain rfl : old = pfs := Option.some.inj (hold.symm.trans hi)
      rw [if_pos rfl, if_pos htext]
    · rw [if_neg hij, if_neg]
      intro hown
      obtain ⟨hilt, hie⟩ := List.getElem?_eq_some_iff.mp hi
      obtain ⟨hjlt, hje⟩ := List.getElem?_eq_some_iff.mp hold
      have horder := List.pairwise_iff_getElem.mp (ht.order (prefixBucket hash text))
      obtain hlt | hlt := Nat.lt_or_gt_of_ne hij
      · have h := horder i j hilt hjlt hlt
        rw [hie, hje, htext, hown] at h
        exact h List.prefix_rfl
      · have h := horder j i hjlt hilt hlt
        rw [hie, hje, htext, hown] at h
        exact h List.prefix_rfl
  · rw [Function.update_of_ne hk] at hm
    have hplace := ht.placed k x hm
    refine ⟨x, ht.mem.mpr (hplace.symm ▸ hm), (if_neg ?_).symm⟩
    rintro rfl
    exact hk hplace.symm

/-- The table and the recordings before and after one that can be counted. -/
theorem record_exact {calls : List PrefixCall} (ht : PrefixTableOk hash t) (hx : PrefixesExact delim calls t)
    (hk : keyPrefix delim key = some text) (hc : Countable hash delim t text event granted) :
    PrefixesExact delim (calls ++ [.record key event granted]) (statsPrefixRecord hash delim event granted t key) := by
  obtain ⟨hl, htake⟩ := prefixLength_plain hk hc.plain
  have hfound : PrefixFound hash t _ granted _ (statsPrefixFind hash delim granted t key).2 := statsPrefixFind_found hl
  have hok : PrefixTableOk hash (statsPrefixRecord hash delim event granted t key) := statsPrefixRecord_ok ht
  rw [htake] at hfound
  rw [statsPrefixRecord] at hok ⊢
  generalize statsPrefixFind hash delim granted t key = r at hfound hok
  obtain ⟨t₁, found⟩ := r
  obtain ⟨i, pfs, rfl, hi, htext, hnew⟩ := found_countable ht hc hfound
  dsimp only at hi hnew hok ⊢
  have ht₁ : PrefixTableOk hash t₁ := by
    cases hfound with
    | old _ _ _ => exact ht
    | fresh hnone hb hn htot => exact ht.fresh hc.plain.1 hnone hb hn htot
  have htexts : ∀ s, s ∈ t₁.texts ↔ s = text ∨ s ∈ t.texts := by
    intro s
    obtain rfl | ⟨-, hperm⟩ := hnew
    · have hown : text ∈ t₁.texts := by
        have hmem := List.mem_of_getElem? hi
        exact List.mem_map.mpr ⟨pfs, ht.mem.mpr (htext.symm ▸ hmem), htext⟩
      exact ⟨.inr, fun hs => hs.elim (· ▸ hown) id⟩
    · rw [PrefixTable.texts, (hperm.map _).mem_iff, List.map_cons, List.mem_cons]
      rfl
  have hcounted : ∀ old ∈ t₁.entries, ∀ k : PrefixCounter,
      (k.value old).toNat = recordings delim old.prefixText k.kind calls ∧
        (old.prefixText = text → k.kind event → (k.value old).toNat + 1 < 2 ^ 64) := by
    intro old hold k
    obtain rfl | ⟨hno, hperm⟩ := hnew
    · exact ⟨hx.counted old hold k, fun he hkind => hc.fits old hold he k hkind⟩
    · obtain rfl | hold := List.mem_cons.mp (hperm.mem_iff.mp hold)
      · have hzero : recordings delim text k.kind calls = 0 :=
          Nat.le_zero.mp (recordings_le.trans (Nat.le_of_not_lt fun h => hno ((hx.entered text).mpr h)))
        have hvalue : (k.value (newPrefix text)).toNat = 0 := by cases k <;> rfl
        exact ⟨hvalue.trans hzero.symm, fun _ _ => by omega⟩
      · exact ⟨hx.counted old hold k, fun he hkind => hc.fits old hold he k hkind⟩
  have hshape : SameShape t₁ { t₁ with
      bucket := Function.update t₁.bucket (prefixBucket hash text) ((t₁.bucket (prefixBucket hash text)).modify i event.count) } :=
    sameShape_modify
  constructor
  · exact hok.texts_nodup
  · intro s
    rw [PrefixTable.texts, show PrefixEntry.prefixText = fun pfs => pfs.shape.1 from rfl, hshape.map Prod.fst,
      recordings_concat, hk]
    refine (htexts s).trans ?_
    rw [hx.entered s]
    by_cases hs : s = text
    · simp [hs]
    · have hne : (some text == some s) = false := beq_false_of_ne fun h => hs (Option.some.inj h).symm
      simp [hs, hne]
  · intro x hmem k
    obtain ⟨old, hold, rfl⟩ := mem_counted ht₁ hi htext rfl hmem
    obtain ⟨heq, hfit⟩ := hcounted old hold k
    rw [recordings_concat, hk]
    by_cases ho : old.prefixText = text
    · rw [if_pos ho, value_count, show (event.count old).prefixText = old.prefixText from congrArg Prod.fst shape_count, ho]
      by_cases hkind : k.kind event = true
      · have hlt := hfit ho hkind
        rw [if_pos hkind, UInt64.toNat_add, Nat.mod_eq_of_lt (by exact hlt), ← ho, ← heq]
        simp [hkind, ho]
      · simp [hkind, ← ho, ← heq]
    · have hne : (some text == some old.prefixText) = false := beq_false_of_ne fun h => ho (Option.some.inj h).symm
      rw [if_neg ho, heq, hne, Bool.and_false]
      rfl

theorem sinceClear_concat (calls : List PrefixCall) (c : PrefixCall) :
    sinceClear (calls ++ [c]) = if c = .clear then [] else sinceClear calls ++ [c] := by
  rw [sinceClear, List.foldl_append]
  rfl

theorem prefixesExact_empty : PrefixesExact delim [] .empty where
  once := by simp [PrefixTable.texts]
  entered text := by simp [PrefixTable.texts, recordings]
  counted := by simp

/-- One call, of any kind. -/
theorem PrefixesExact.step {calls : List PrefixCall} {c : PrefixCall} (ht : PrefixTableOk hash t)
    (hx : PrefixesExact delim (sinceClear calls) t) (hg : PrefixGuard hash delim t c) :
    PrefixesExact delim (sinceClear (calls ++ [c])) (t.call hash delim c) := by
  rw [sinceClear_concat]
  cases c with
  | clear => exact prefixesExact_empty
  | record key event granted =>
    rw [if_neg nofun]
    have hsame : t.call hash delim (.record key event granted) = statsPrefixRecord hash delim event granted t key := by
      cases event <;> rfl
    rw [hsame]
    cases hk : keyPrefix delim key with
    | some text => exact record_exact ht hx hk (hg text hk)
    | none =>
      have hl : prefixLength delim key = none := by
        by_contra hne
        obtain ⟨n, hn⟩ := Option.ne_none_iff_exists'.mp hne
        rw [(prefixLength_some hn).1] at hk
        cases hk
      have hrec : ∀ s kind, recordings delim s kind (sinceClear calls ++ [.record key event granted]) =
          recordings delim s kind (sinceClear calls) := by
        intro s kind
        rw [recordings_concat, hk]
        simp
      rw [statsPrefixRecord, statsPrefixFind_none hl]
      exact ⟨hx.once, fun s => (hx.entered s).trans (by rw [hrec]), fun pfs hm k => (hx.counted pfs hm k).trans (hrec _ _).symm⟩

theorem PrefixesExact.run {seen calls : List PrefixCall} (hr : Run (Guarded (PrefixGuard hash delim) (PrefixStep hash delim)) t calls t')
    (ht : PrefixTableOk hash t) (hx : PrefixesExact delim (sinceClear seen) t) :
    PrefixesExact delim (sinceClear (seen ++ calls)) t' := by
  induction hr generalizing seen with
  | nil => rwa [List.append_nil]
  | @cons _ _ _ c _ hstep _ ih =>
    obtain ⟨hg, rfl⟩ := hstep
    have h := ih (ht.call c) (hx.step ht hg)
    rwa [List.append_assoc] at h

end

/-- The table tells how often each prefix was recorded since the last clear, if no call was for a
prefix that another recorded one of its bucket starts with. -/
theorem prefix_counts_exact (hash : Bytes → UInt32) (delim : UInt8) (calls : List PrefixCall) (t : PrefixTable)
    (hr : Run (Guarded (PrefixGuard hash delim) (PrefixStep hash delim)) .empty calls t) :
    PrefixesExact delim (sinceClear calls) t := by
  have h : PrefixesExact delim (sinceClear ([] ++ calls)) t := PrefixesExact.run hr prefixTableOk_empty prefixesExact_empty
  rwa [List.nil_append] at h

/-- The table that these calls lead to. -/
def tableAfter (calls : List PrefixCall) : PrefixTable := calls.foldl (PrefixTable.call (fun _ => 7) 58) .empty

/-- A command for each of two prefixes of one bucket, a hit for the first, and a key without prefix. -/
def twoPrefixes : List PrefixCall :=
  [.record (ascii "ab:1") .set true, .record (ascii "cd:1") .delete true, .record (ascii "ab:2") (.get true) false,
    .record (ascii "ab") .set true]

theorem prefix_counts_exact_two : Run (Guarded (PrefixGuard (fun _ => 7) 58) (PrefixStep (fun _ => 7) 58)) .empty twoPrefixes
      (tableAfter twoPrefixes) ∧
    (tableAfter twoPrefixes).entries = [⟨ascii "cd", 2, 0, 0, 1, 0⟩, ⟨ascii "ab", 2, 1, 1, 0, 1⟩] ∧
    PrefixesExact 58 (sinceClear twoPrefixes) (tableAfter twoPrefixes) := by
  have hsmall : ∀ n : Fin 3, ∀ pfs ∈ (tableAfter (twoPrefixes.take n)).entries, ∀ k ∈ [PrefixCounter.gets, .hits, .sets, .deletes],
      (k.value pfs).toNat < 2 := by decide +kernel
  have hfits : ∀ n : Fin 3, ∀ pfs ∈ (tableAfter (twoPrefixes.take n)).entries, ∀ k : PrefixCounter, (k.value pfs).toNat + 1 < 2 ^ 64 :=
    fun n pfs hm k => by
      have hlt := hsmall n pfs hm k (by cases k <;> simp)
      omega
  have hrun : Run (Guarded (PrefixGuard (fun _ => 7) 58) (PrefixStep (fun _ => 7) 58)) .empty twoPrefixes (tableAfter twoPrefixes) := by
    refine .cons ⟨?_, rfl⟩ (.cons ⟨?_, rfl⟩ (.cons ⟨?_, rfl⟩ (.cons ⟨?_, rfl⟩ (.nil _))))
    · intro text htext
      obtain rfl : ascii "ab" = text := Option.some.inj htext
      exact ⟨⟨by decide, by decide⟩, by decide +kernel, .inl rfl, fun pfs hm _ k _ => hfits 0 pfs hm k⟩
    · intro text htext
      obtain rfl : ascii "cd" = text := Option.some.inj htext
      exact ⟨⟨by decide, by decide⟩, by decide +kernel, .inl rfl, fun pfs hm _ k _ => hfits 1 pfs hm k⟩
    · intro text htext
      obtain rfl : ascii "ab" = text := Option.some.inj htext
      exact ⟨⟨by decide, by decide⟩, by decide +kernel, .inr (by decide +kernel), fun pfs hm _ k _ => hfits 2 pfs hm k⟩
    · exact nofun
  exact ⟨hrun, by decide +kernel, prefix_counts_exact _ _ _ _ hrun⟩

/-- In one bucket, what is recorded for `ab` is counted for `abc`. -/
theorem prefix_confused : ∃ t, Run (PrefixStep (fun _ => 7) 58) .empty
    [.record (ascii "abc:1") .set true, .record (ascii "ab:1") .set true] t ∧
    ¬PrefixesExact 58 (sinceClear [.record (ascii "abc:1") .set true, .record (ascii "ab:1") .set true]) t := by
  refine ⟨_, .cons rfl (.cons rfl (.nil _)), fun hx => ?_⟩
  have hentry : (⟨ascii "abc", 3, 0, 2, 0, 0⟩ : PrefixEntry) ∈ (PrefixTable.call (fun _ => 7) 58
      (PrefixTable.call (fun _ => 7) 58 .empty (.record (ascii "abc:1") .set true)) (.record (ascii "ab:1") .set true)).entries :=
    PrefixTable.mem_entries.mpr ⟨7, by decide, by decide⟩
  exact absurd (hx.counted _ hentry .sets) (by decide)

end RamCube
