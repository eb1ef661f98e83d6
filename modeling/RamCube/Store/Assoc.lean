import RamCube.Lib.Run
import Mathlib.Data.List.Nodup
import Mathlib.Data.Nat.Bitwise
import Mathlib.Algebra.Order.Group.Int
import Mathlib.Logic.Function.Basic

/-! # The hash table of assoc.c

Each table is a row of buckets, each bucket a chain of items linked through
`h_next`, newest first. A bucket is named by its offset from the start of the
table: the offset is an `Int` because `assoc_maintenance_thread` keeps it in a
C `int`, and an offset outside `0 .. hashsize - 1` names memory that is not part
of the table. During an expansion the keys of the buckets from `expandBucket`
on still live in the old table. -/
namespace RamCube

variable {ι κ : Type}

def hashsize (n : Nat) : Nat := 2 ^ n

def hashmask (n : Nat) : Nat := hashsize n - 1

/-- An unsigned number stored in a C `unsigned int`. -/
def toUInt (n : Nat) : Nat := n % 2 ^ 32

/-- An unsigned number stored in a C `int`. -/
def toInt (n : Nat) : Int := (n : Int).bmod (2 ^ 32)

structure Assoc (ι : Type) where
  hashpower : Nat
  primaryHashtable : Int → List ι
  oldHashtable : Int → List ι
  hashItems : Nat
  expanding : Bool
  startedExpanding : Bool
  expandBucket : Nat

/-- `assoc_init` with a power of two of buckets, none of them filled. -/
def assocInit (hashpower : Nat) : Assoc ι where
  hashpower := hashpower
  primaryHashtable := fun _ => []
  oldHashtable := fun _ => []
  hashItems := 0
  expanding := false
  startedExpanding := false
  expandBucket := 0

/-- The bucket of `hv` in the old table. -/
def oldbucket (t : Assoc ι) (hv : UInt32) : Nat := hv.toNat &&& hashmask (t.hashpower - 1)

/-- The bucket of `hv` in the primary table. -/
def bucket (t : Assoc ι) (hv : UInt32) : Nat := hv.toNat &&& hashmask t.hashpower

/-- The test every operation repeats: has the bucket of `hv` not moved yet? -/
def inOld (t : Assoc ι) (hv : UInt32) : Bool :=
  t.expanding && decide (t.expandBucket ≤ oldbucket t hv)

def assocFind [DecidableEq κ] (keyOf : ι → κ) (t : Assoc ι) (key : κ) (hv : UInt32) : Option ι :=
  let it := if inOld t hv then t.oldHashtable (oldbucket t hv)
    else t.primaryHashtable (bucket t hv)
  it.find? fun it => key = keyOf it

/-- The address of the pointer to the item of a key: its table, its bucket and
how many items of the chain come before it. -/
structure Pos where
  inOldTable : Bool
  bucket : Int
  depth : Nat

def hashitemBefore [DecidableEq κ] (keyOf : ι → κ) (t : Assoc ι) (key : κ) (hv : UInt32) : Pos :=
  let found := fun it => decide (key = keyOf it)
  if inOld t hv then ⟨true, oldbucket t hv, (t.oldHashtable (oldbucket t hv)).findIdx found⟩
  else ⟨false, bucket t hv, (t.primaryHashtable (bucket t hv)).findIdx found⟩

def assocExpand (t : Assoc ι) (callocOk : Bool) : Assoc ι :=
  let t := { t with oldHashtable := t.primaryHashtable }
  if callocOk then
    { t with
      primaryHashtable := fun _ => []
      hashpower := t.hashpower + 1
      expanding := true
      expandBucket := 0 }
  else { t with primaryHashtable := t.oldHashtable }

def assocStartExpand (t : Assoc ι) : Assoc ι :=
  if t.startedExpanding then t else { t with startedExpanding := true }

def assocInsert (t : Assoc ι) (it : ι) (hv : UInt32) : Assoc ι :=
  let t := if inOld t hv then
      { t with
        oldHashtable := Function.update t.oldHashtable (oldbucket t hv)
          (it :: t.oldHashtable (oldbucket t hv)) }
    else
      { t with
        primaryHashtable := Function.update t.primaryHashtable (bucket t hv)
          (it :: t.primaryHashtable (bucket t hv)) }
  let t := { t with hashItems := toUInt (t.hashItems + 1) }
  if !t.expanding && decide (hashsize t.hashpower * 3 / 2 < t.hashItems) then
    assocStartExpand t
  else t

/-- `assoc_delete`. A key that is not in its chain trips the final assertion in
a debug build and changes nothing in a release build. -/
def assocDelete [DecidableEq κ] (keyOf : ι → κ) (t : Assoc ι) (key : κ) (hv : UInt32) : Assoc ι :=
  let before := hashitemBefore keyOf t key hv
  let chain := if before.inOldTable then t.oldHashtable before.bucket
    else t.primaryHashtable before.bucket
  if before.depth < chain.length then
    let t := { t with hashItems := toUInt (t.hashItems + (2 ^ 32 - 1)) }
    if before.inOldTable then
      { t with
        oldHashtable := Function.update t.oldHashtable before.bucket
          (chain.eraseIdx before.depth) }
    else
      { t with
        primaryHashtable := Function.update t.primaryHashtable before.bucket
          (chain.eraseIdx before.depth) }
  else t

/-- One item of the bucket that migrates: `int bucket` is its new offset. -/
def migrateItem (hash : κ → UInt32) (keyOf : ι → κ) (hashpower : Nat) (table : Int → List ι)
    (it : ι) : Int → List ι :=
  let bucket : Int := toInt ((hash (keyOf it)).toNat &&& hashmask hashpower)
  Function.update table bucket (it :: table bucket)

/-- The body of the bulk-move loop of `assoc_maintenance_thread`: one bucket. -/
def migrateBucket (hash : κ → UInt32) (keyOf : ι → κ) (t : Assoc ι) : Assoc ι :=
  let t := { t with
    primaryHashtable := (t.oldHashtable t.expandBucket).foldl
      (migrateItem hash keyOf t.hashpower) t.primaryHashtable
    oldHashtable := Function.update t.oldHashtable t.expandBucket []
    expandBucket := toUInt (t.expandBucket + 1) }
  if t.expandBucket = hashsize (t.hashpower - 1) then { t with expanding := false } else t

/-! ## What each operation finds

Every operation works on one bucket. `AssocOk` says which items each bucket
holds: the bucket of an item in the old table as long as its old bucket has not
migrated, and the bucket in the primary table from then on. -/

theorem and_hashmask (n m : Nat) : n &&& hashmask m = n % hashsize m :=
  Nat.and_two_pow_sub_one_eq_mod n m

theorem oldbucket_lt (t : Assoc ι) (hv : UInt32) :
    oldbucket t hv < hashsize (t.hashpower - 1) := by
  rw [oldbucket, and_hashmask]
  exact Nat.mod_lt _ (Nat.two_pow_pos _)

theorem toInt_of_lt {n : Nat} (h : n < 2 ^ 31) : toInt n = n := by
  unfold toInt
  rw [Int.bmod_def]
  omega

theorem toUInt_of_lt {n : Nat} (h : n < 2 ^ 32) : toUInt n = n := Nat.mod_eq_of_lt h

theorem toInt_bucket {t : Assoc ι} (h : t.hashpower ≤ 31) (hv : UInt32) :
    toInt (bucket t hv) = bucket t hv := by
  apply toInt_of_lt
  rw [bucket, and_hashmask]
  calc hv.toNat % hashsize t.hashpower < hashsize t.hashpower := Nat.mod_lt _ (Nat.two_pow_pos _)
    _ ≤ 2 ^ 31 := Nat.pow_le_pow_right (by omega) h

/-- The table holds exactly the items of `live`, each in its bucket. -/
structure AssocOk (hash : κ → UInt32) (keyOf : ι → κ) (t : Assoc ι) (live : List ι) : Prop where
  keys : (live.map keyOf).Nodup
  old : t.expanding = true → ∀ i x, x ∈ t.oldHashtable i ↔
    x ∈ live ∧ inOld t (hash (keyOf x)) = true ∧ i = oldbucket t (hash (keyOf x))
  primary : ∀ i x, x ∈ t.primaryHashtable i ↔
    x ∈ live ∧ inOld t (hash (keyOf x)) = false ∧ i = bucket t (hash (keyOf x))
  oldNodup : t.expanding = true → ∀ i, (t.oldHashtable i).Nodup
  primaryNodup : ∀ i, (t.primaryHashtable i).Nodup
  count : t.hashItems = toUInt live.length
  range : t.expanding = true → 1 ≤ t.hashpower ∧ t.hashpower ≤ 31 ∧
    t.expandBucket < hashsize (t.hashpower - 1)

variable {hash : κ → UInt32} {keyOf : ι → κ} {t : Assoc ι} {live : List ι}

theorem expanding_of_inOld {hv : UInt32} (h : inOld t hv = true) : t.expanding = true :=
  (Bool.and_eq_true_iff.mp h).1

theorem eq_of_keyOf_eq (hk : (live.map keyOf).Nodup) {x y : ι} (hx : x ∈ live) (hy : y ∈ live)
    (h : keyOf x = keyOf y) : x = y :=
  List.inj_on_of_nodup_map hk hx hy h

/-- The keys of one bucket are as distinct as those of the table. -/
theorem nodup_map_of_subset {chain : List ι} (hk : (live.map keyOf).Nodup) (hn : chain.Nodup)
    (hs : ∀ x ∈ chain, x ∈ live) : (chain.map keyOf).Nodup :=
  List.Nodup.map_on (fun x hx y hy he => eq_of_keyOf_eq hk (hs x hx) (hs y hy) he) hn

theorem assocOk_init (n : Nat) : AssocOk hash keyOf (assocInit n) [] where
  keys := List.nodup_nil
  old := by intro h; cases h
  primary := by simp [assocInit]
  oldNodup := by intro h; cases h
  primaryNodup := by simp [assocInit]
  count := rfl
  range := by intro h; cases h

/-- The table reads its items only through their keys. -/
theorem AssocOk.congr {keyOf' : ι → κ} (h : AssocOk hash keyOf t live)
    (he : ∀ x ∈ live, keyOf' x = keyOf x) : AssocOk hash keyOf' t live where
  keys := by rw [List.map_congr_left he]; exact h.keys
  old := by
    intro hx i x
    rw [h.old hx]
    exact and_congr_right fun hm => by rw [he x hm]
  primary := by
    intro i x
    rw [h.primary]
    exact and_congr_right fun hm => by rw [he x hm]
  oldNodup := h.oldNodup
  primaryNodup := h.primaryNodup
  count := h.count
  range := h.range

variable [DecidableEq κ]

/-- Two lists that hold the same items of a key find the same item for it. -/
theorem find?_key_congr {l : List ι} {key : κ} (hk : (live.map keyOf).Nodup)
    (h : ∀ x, keyOf x = key → (x ∈ l ↔ x ∈ live)) :
    l.find? (fun it => key = keyOf it) = live.find? fun it => key = keyOf it := by
  cases hf : live.find? fun it => key = keyOf it with
  | none =>
    simp only [List.find?_eq_none, decide_eq_true_eq] at hf ⊢
    intro x hx he
    exact hf x ((h x he.symm).mp hx) he
  | some x =>
    have hx := List.mem_of_find?_eq_some hf
    have hxk : key = keyOf x := by simpa using List.find?_some hf
    cases hg : l.find? fun it => key = keyOf it with
    | none =>
      simp only [List.find?_eq_none, decide_eq_true_eq] at hg
      exact absurd hxk (hg x ((h x hxk.symm).mpr hx))
    | some y =>
      have hyk : key = keyOf y := by simpa using List.find?_some hg
      have hy := (h y hyk.symm).mp (List.mem_of_find?_eq_some hg)
      rw [eq_of_keyOf_eq hk hy hx (hyk.symm.trans hxk)]

/-- `assoc_find` looks a key up among the items of the table. -/
theorem assocFind_eq (h : AssocOk hash keyOf t live) (key : κ) :
    assocFind keyOf t key (hash key) = live.find? fun it => key = keyOf it := by
  unfold assocFind
  apply find?_key_congr h.keys
  rintro x rfl
  split
  · rename_i ho
    rw [h.old (expanding_of_inOld ho)]
    simp [ho]
  · rename_i ho
    rw [h.primary]
    simp [Bool.eq_false_iff.mpr ho]

theorem assocFind_eq_some (h : AssocOk hash keyOf t live) {key : κ} {x : ι} :
    assocFind keyOf t key (hash key) = some x ↔ x ∈ live ∧ keyOf x = key := by
  rw [assocFind_eq h]
  constructor
  · intro hf
    have hxk : key = keyOf x := by simpa using List.find?_some hf
    exact ⟨List.mem_of_find?_eq_some hf, hxk.symm⟩
  · rintro ⟨hx, rfl⟩
    cases hf : live.find? fun it => keyOf x = keyOf it with
    | none => simpa using List.find?_eq_none.mp hf x hx
    | some y =>
      have hyk : keyOf x = keyOf y := by simpa using List.find?_some hf
      rw [eq_of_keyOf_eq h.keys hx (List.mem_of_find?_eq_some hf) hyk]

theorem assocFind_eq_none (h : AssocOk hash keyOf t live) {key : κ} :
    assocFind keyOf t key (hash key) = none ↔ ∀ x ∈ live, keyOf x ≠ key := by
  rw [assocFind_eq h, List.find?_eq_none]
  simp [eq_comm]

/-! ## What each operation keeps -/

section Insert

omit [DecidableEq κ]

theorem assocInsert_tables (t : Assoc ι) (it : ι) (hv : UInt32) :
    (assocInsert t it hv).oldHashtable = (if inOld t hv then
      Function.update t.oldHashtable (oldbucket t hv) (it :: t.oldHashtable (oldbucket t hv))
      else t.oldHashtable) ∧
    (assocInsert t it hv).primaryHashtable = (if inOld t hv then t.primaryHashtable
      else Function.update t.primaryHashtable (bucket t hv)
        (it :: t.primaryHashtable (bucket t hv))) := by
  unfold assocInsert assocStartExpand
  cases inOld t hv <;> dsimp only [Bool.false_eq_true, if_false, if_true] <;> split_ifs <;>
    exact ⟨rfl, rfl⟩

theorem assocInsert_fields (t : Assoc ι) (it : ι) (hv : UInt32) :
    (assocInsert t it hv).hashpower = t.hashpower ∧
    (assocInsert t it hv).expanding = t.expanding ∧
    (assocInsert t it hv).expandBucket = t.expandBucket ∧
    (assocInsert t it hv).hashItems = toUInt (t.hashItems + 1) := by
  unfold assocInsert assocStartExpand
  cases inOld t hv <;> dsimp only [Bool.false_eq_true, if_false, if_true] <;> split_ifs <;>
    exact ⟨rfl, rfl, rfl, rfl⟩

/-- The bucket of a hash value depends on the size and the progress of the table only. -/
theorem buckets_congr {t t' : Assoc ι} (hp : t'.hashpower = t.hashpower)
    (he : t'.expanding = t.expanding) (hb : t'.expandBucket = t.expandBucket) (hv : UInt32) :
    inOld t' hv = inOld t hv ∧ oldbucket t' hv = oldbucket t hv ∧ bucket t' hv = bucket t hv := by
  unfold inOld oldbucket bucket
  rw [hp, he, hb]
  exact ⟨rfl, rfl, rfl⟩

theorem toUInt_succ (n : Nat) : toUInt (toUInt n + 1) = toUInt (n + 1) := by
  simp only [toUInt]; omega

theorem mem_update_cons {α : Type} {tab : Int → List α} {i j : Int} {x y : α} :
    x ∈ Function.update tab j (y :: tab j) i ↔ x ∈ tab i ∨ (x = y ∧ i = j) := by
  by_cases h : i = j
  · subst h; simp [or_comm]
  · simp [h]

theorem nodup_update_cons {α : Type} {tab : Int → List α} {j : Int} {y : α}
    (hn : ∀ i, (tab i).Nodup) (hy : y ∉ tab j) (i : Int) :
    (Function.update tab j (y :: tab j) i).Nodup := by
  by_cases h : i = j
  · subst h; simpa using ⟨hy, hn i⟩
  · rw [Function.update_of_ne h]; exact hn i

theorem AssocOk.insert (h : AssocOk hash keyOf t live) {it : ι}
    (hk : ∀ x ∈ live, keyOf x ≠ keyOf it) :
    AssocOk hash keyOf (assocInsert t it (hash (keyOf it))) (it :: live) := by
  have hit : it ∉ live := fun hm => hk it hm rfl
  obtain ⟨hp, he, hb, hc⟩ := assocInsert_fields t it (hash (keyOf it))
  obtain ⟨ho, hpr⟩ := assocInsert_tables t it (hash (keyOf it))
  have hbk := buckets_congr hp he hb
  constructor
  · simpa using ⟨fun x hx => hk x hx, h.keys⟩
  · intro hx i x
    rw [he] at hx
    rw [(hbk _).1, (hbk _).2.1, ho]
    split
    · rename_i hin
      rw [mem_update_cons, h.old hx, List.mem_cons]
      constructor
      · rintro (⟨hm, hi, rfl⟩ | ⟨rfl, rfl⟩)
        · exact ⟨.inr hm, hi, rfl⟩
        · exact ⟨.inl rfl, hin, rfl⟩
      · rintro ⟨rfl | hm, hi, rfl⟩
        · exact .inr ⟨rfl, rfl⟩
        · exact .inl ⟨hm, hi, rfl⟩
    · rename_i hin
      rw [h.old hx, List.mem_cons]
      constructor
      · rintro ⟨hm, hi, rfl⟩
        exact ⟨.inr hm, hi, rfl⟩
      · rintro ⟨rfl | hm, hi, rfl⟩
        · exact absurd hi hin
        · exact ⟨hm, hi, rfl⟩
  · intro i x
    rw [(hbk _).1, (hbk _).2.2, hpr]
    split
    · rename_i hin
      rw [h.primary, List.mem_cons]
      constructor
      · rintro ⟨hm, hi, rfl⟩
        exact ⟨.inr hm, hi, rfl⟩
      · rintro ⟨rfl | hm, hi, rfl⟩
        · rw [hin] at hi; cases hi
        · exact ⟨hm, hi, rfl⟩
    · rename_i hin
      rw [mem_update_cons, h.primary, List.mem_cons]
      constructor
      · rintro (⟨hm, hi, rfl⟩ | ⟨rfl, rfl⟩)
        · exact ⟨.inr hm, hi, rfl⟩
        · exact ⟨.inl rfl, by simpa using hin, rfl⟩
      · rintro ⟨rfl | hm, hi, rfl⟩
        · exact .inr ⟨rfl, rfl⟩
        · exact .inl ⟨hm, hi, rfl⟩
  · intro hx i
    rw [he] at hx
    rw [ho]
    split
    · exact nodup_update_cons (h.oldNodup hx) (fun hm => hit ((h.old hx _ _).mp hm).1) i
    · exact h.oldNodup hx i
  · intro i
    rw [hpr]
    split
    · exact h.primaryNodup i
    · exact nodup_update_cons h.primaryNodup (fun hm => hit ((h.primary _ _).mp hm).1) i
  · rw [hc, h.count, toUInt_succ, List.length_cons]
  · rw [he, hp, hb]
    exact h.range

theorem AssocOk.expand (h : AssocOk hash keyOf t live) (he : t.expanding = false)
    {callocOk : Bool} (hp : callocOk = true → t.hashpower ≤ 30) :
    AssocOk hash keyOf (assocExpand t callocOk) live := by
  cases callocOk with
  | false =>
    have : assocExpand t false = { t with oldHashtable := t.primaryHashtable } := rfl
    rw [this]
    exact ⟨h.keys, by simp [he], h.primary, by simp [he], h.primaryNodup, h.count, by simp [he]⟩
  | true =>
    have hp := hp rfl
    have hin : ∀ hv, inOld t hv = false := by simp [inOld, he]
    have hin' : ∀ hv, inOld (assocExpand t true) hv = true := by simp [inOld, assocExpand]
    constructor
    · exact h.keys
    · intro _ i x
      rw [hin', show (assocExpand t true).oldHashtable = t.primaryHashtable from rfl, h.primary, hin]
      simp [oldbucket, bucket, assocExpand]
    · intro i x
      rw [hin']
      simp [assocExpand]
    · intro _
      exact h.primaryNodup
    · simp [assocExpand]
    · exact h.count
    · intro _
      refine ⟨?_, ?_, ?_⟩
      · simp [assocExpand]
      · simp only [assocExpand, if_true]; omega
      · exact Nat.two_pow_pos _

/-! Migrating a bucket spreads its chain over the primary table. -/

theorem foldl_migrateItem (p : Nat) (chain : List ι) (tab : Int → List ι) (i : Int) :
    chain.foldl (migrateItem hash keyOf p) tab i =
      (chain.filter fun x =>
        toInt ((hash (keyOf x)).toNat &&& hashmask p) = i).reverse ++ tab i := by
  induction chain generalizing tab with
  | nil => rfl
  | cons y ys ih =>
    rw [List.foldl_cons, ih, List.filter_cons]
    by_cases h : toInt ((hash (keyOf y)).toNat &&& hashmask p) = i
    · simp [migrateItem, h]
    · simp [migrateItem, h, Function.update_of_ne (Ne.symm h)]

theorem migrateBucket_fields (hash : κ → UInt32) (keyOf : ι → κ) (t : Assoc ι) :
    (migrateBucket hash keyOf t).hashpower = t.hashpower ∧
    (migrateBucket hash keyOf t).hashItems = t.hashItems ∧
    (migrateBucket hash keyOf t).expandBucket = toUInt (t.expandBucket + 1) ∧
    (migrateBucket hash keyOf t).expanding = (if toUInt (t.expandBucket + 1) =
      hashsize (t.hashpower - 1) then false else t.expanding) ∧
    (migrateBucket hash keyOf t).oldHashtable =
      Function.update t.oldHashtable t.expandBucket [] ∧
    (migrateBucket hash keyOf t).primaryHashtable = (t.oldHashtable t.expandBucket).foldl
      (migrateItem hash keyOf t.hashpower) t.primaryHashtable := by
  unfold migrateBucket
  dsimp only
  split_ifs <;> exact ⟨rfl, rfl, rfl, rfl, rfl, rfl⟩

/-- After a bucket has migrated, what is left in the old table lies beyond it. -/
theorem inOld_migrateBucket (h : AssocOk hash keyOf t live) (he : t.expanding = true)
    (hv : UInt32) : inOld (migrateBucket hash keyOf t) hv = true ↔
      t.expandBucket < oldbucket t hv := by
  obtain ⟨_, hp, hb⟩ := h.range he
  obtain ⟨fp, _, fb, fe, _, _⟩ := migrateBucket_fields hash keyOf t
  have hlt := oldbucket_lt t hv
  have hsz : hashsize (t.hashpower - 1) ≤ 2 ^ 30 := Nat.pow_le_pow_right (by omega) (by omega)
  have hub : toUInt (t.expandBucket + 1) = t.expandBucket + 1 := toUInt_of_lt (by omega)
  rw [inOld, fb, fe, oldbucket, fp, hub, ← oldbucket, he]
  split
  · simp only [Bool.false_and, Bool.false_eq_true, false_iff]; omega
  · simp only [Bool.true_and, decide_eq_true_eq]; omega

theorem oldbucket_migrateBucket (hash : κ → UInt32) (keyOf : ι → κ) (t : Assoc ι) (hv : UInt32) :
    oldbucket (migrateBucket hash keyOf t) hv = oldbucket t hv ∧
      bucket (migrateBucket hash keyOf t) hv = bucket t hv := by
  obtain ⟨fp, _⟩ := migrateBucket_fields hash keyOf t
  simp only [oldbucket, bucket, fp, and_self]

theorem AssocOk.migrate (h : AssocOk hash keyOf t live) (he : t.expanding = true) :
    AssocOk hash keyOf (migrateBucket hash keyOf t) live := by
  obtain ⟨hp1, hp, hb⟩ := h.range he
  obtain ⟨fp, fc, fb, fe, fo, fpr⟩ := migrateBucket_fields hash keyOf t
  have hin := inOld_migrateBucket h he
  have hbk := oldbucket_migrateBucket hash keyOf t
  have hat : ∀ hv, inOld t hv = true ↔ t.expandBucket ≤ oldbucket t hv := by simp [inOld, he]
  have hint := fun hv => toInt_bucket (t := t) hp hv
  constructor
  · exact h.keys
  · intro _ i x
    rw [fo, (hbk _).1, hin]
    by_cases hi : i = t.expandBucket
    · subst hi
      simp only [Function.update_self, List.not_mem_nil, false_iff]
      omega
    · rw [Function.update_of_ne hi, h.old he, hat]
      refine and_congr_right fun _ => and_congr_left fun hx => ?_
      omega
  · intro i x
    rw [fpr, foldl_migrateItem, List.mem_append, List.mem_reverse, List.mem_filter,
      decide_eq_true_eq, h.old he, h.primary, (hbk _).2, Bool.eq_false_iff, Bool.eq_false_iff,
      Ne, Ne, hin, hat, ← bucket, hint]
    constructor
    · rintro (⟨⟨hm, _, hi⟩, rfl⟩ | ⟨hm, hi, rfl⟩)
      · exact ⟨hm, by omega, rfl⟩
      · exact ⟨hm, by omega, rfl⟩
    · rintro ⟨hm, hi, rfl⟩
      by_cases hx : t.expandBucket ≤ oldbucket t (hash (keyOf x))
      · exact .inl ⟨⟨hm, hx, by omega⟩, rfl⟩
      · exact .inr ⟨hm, hx, rfl⟩
  · intro _ i
    rw [fo]
    by_cases hi : i = t.expandBucket
    · simp [hi]
    · rw [Function.update_of_ne hi]; exact h.oldNodup he i
  · intro i
    rw [fpr, foldl_migrateItem]
    refine List.Nodup.append ?_ (h.primaryNodup i) ?_
    · exact List.nodup_reverse.mpr ((h.oldNodup he _).filter _)
    · intro x hx hx'
      have hx := (h.old he _ _).mp (List.mem_of_mem_filter (List.mem_reverse.mp hx))
      rw [((h.primary _ _).mp hx').2.1] at hx
      cases hx.2.1
  · rw [fc, h.count]
  · rw [fe, fp, fb]
    split
    · intro hx; cases hx
    · rename_i hne
      intro _
      have hsz : hashsize (t.hashpower - 1) ≤ 2 ^ 30 :=
        Nat.pow_le_pow_right (by omega) (by omega)
      rw [toUInt_of_lt (by omega)] at hne ⊢
      exact ⟨hp1, hp, by omega⟩

/-- The step that ends an expansion leaves nothing in the old table. -/
theorem AssocOk.migrate_last (h : AssocOk hash keyOf t live) (he : t.expanding = true)
    (hend : (migrateBucket hash keyOf t).expanding = false) (i : Int) :
    (migrateBucket hash keyOf t).oldHashtable i = [] := by
  obtain ⟨_, hp, hb⟩ := h.range he
  obtain ⟨_, _, _, fe, fo, _⟩ := migrateBucket_fields hash keyOf t
  have hsz : hashsize (t.hashpower - 1) ≤ 2 ^ 30 := Nat.pow_le_pow_right (by omega) (by omega)
  rw [fe, he, toUInt_of_lt (by omega)] at hend
  have hlast : t.expandBucket + 1 = hashsize (t.hashpower - 1) := by
    by_contra hne
    simp [hne] at hend
  rw [fo]
  by_cases hi : i = t.expandBucket
  · simp [hi]
  · rw [Function.update_of_ne hi, List.eq_nil_iff_forall_not_mem]
    intro x hx
    obtain ⟨_, hin, rfl⟩ := (h.old he _ _).mp hx
    have hlt := oldbucket_lt t (hash (keyOf x))
    have : t.expandBucket ≤ oldbucket t (hash (keyOf x)) := by simpa [inOld, he] using hin
    omega

end Insert

/-! `assoc_delete` takes the item of the key out of its chain. -/

theorem eraseIdx_findIdx_key {chain : List ι} {key : κ} (hn : (chain.map keyOf).Nodup) :
    chain.eraseIdx (chain.findIdx fun it => decide (key = keyOf it)) =
      chain.filter fun it => decide (keyOf it ≠ key) := by
  induction chain with
  | nil => rfl
  | cons y ys ih =>
    obtain ⟨hy, hn⟩ := List.nodup_cons.mp hn
    by_cases h : key = keyOf y
    · subst h
      have hf : ∀ x ∈ ys, keyOf x ≠ keyOf y := fun x hx he => hy (he ▸ List.mem_map_of_mem hx)
      simpa [List.findIdx_cons] using (List.filter_eq_self.mpr (by simpa using hf)).symm
    · simpa [List.findIdx_cons, h, Ne.symm h] using ih hn

theorem length_filter_key {key : κ} (hk : (live.map keyOf).Nodup)
    (hm : ∃ x ∈ live, keyOf x = key) :
    (live.filter fun it => decide (keyOf it ≠ key)).length = live.length - 1 := by
  rw [← eraseIdx_findIdx_key hk, List.length_eraseIdx_of_lt]
  obtain ⟨x, hx, rfl⟩ := hm
  exact List.findIdx_lt_length_of_exists ⟨x, hx, by simp⟩

theorem assocDelete_fields (keyOf : ι → κ) (t : Assoc ι) (key : κ) (hv : UInt32) :
    (assocDelete keyOf t key hv).hashpower = t.hashpower ∧
    (assocDelete keyOf t key hv).expanding = t.expanding ∧
    (assocDelete keyOf t key hv).expandBucket = t.expandBucket := by
  unfold assocDelete
  dsimp only
  split_ifs <;> exact ⟨rfl, rfl, rfl⟩

/-- `assoc_delete` on a key of the table filters the key out of its bucket. -/
theorem assocDelete_tables (h : AssocOk hash keyOf t live) {key : κ}
    (hm : ∃ x ∈ live, keyOf x = key) :
    (assocDelete keyOf t key (hash key)).hashItems = toUInt (t.hashItems + (2 ^ 32 - 1)) ∧
    (assocDelete keyOf t key (hash key)).oldHashtable = (if inOld t (hash key) then
      Function.update t.oldHashtable (oldbucket t (hash key))
        ((t.oldHashtable (oldbucket t (hash key))).filter fun it => decide (keyOf it ≠ key))
      else t.oldHashtable) ∧
    (assocDelete keyOf t key (hash key)).primaryHashtable = (if inOld t (hash key) then
      t.primaryHashtable
      else Function.update t.primaryHashtable (bucket t (hash key))
        ((t.primaryHashtable (bucket t (hash key))).filter fun it => decide (keyOf it ≠ key))) := by
  obtain ⟨x, hx, rfl⟩ := hm
  unfold assocDelete hashitemBefore
  cases hin : inOld t (hash (keyOf x)) with
  | true =>
    have he := expanding_of_inOld hin
    have hmem : x ∈ t.oldHashtable (oldbucket t (hash (keyOf x))) :=
      (h.old he _ _).mpr ⟨hx, hin, rfl⟩
    have hd := List.findIdx_lt_length_of_exists
      (p := fun it => decide (keyOf x = keyOf it)) ⟨x, hmem, by simp⟩
    have hk := nodup_map_of_subset h.keys (h.oldNodup he _)
      (fun y hy => ((h.old he (oldbucket t (hash (keyOf x))) y).mp hy).1)
    simp only [if_true, hd, eraseIdx_findIdx_key hk, and_self]
  | false =>
    have hmem : x ∈ t.primaryHashtable (bucket t (hash (keyOf x))) :=
      (h.primary _ _).mpr ⟨hx, hin, rfl⟩
    have hd := List.findIdx_lt_length_of_exists
      (p := fun it => decide (keyOf x = keyOf it)) ⟨x, hmem, by simp⟩
    have hk := nodup_map_of_subset h.keys (h.primaryNodup _)
      (fun y hy => ((h.primary (bucket t (hash (keyOf x))) y).mp hy).1)
    simp only [Bool.false_eq_true, if_false, if_true, hd, eraseIdx_findIdx_key hk, and_self]

theorem toUInt_pred {n : Nat} (h : 0 < n) : toUInt (toUInt n + (2 ^ 32 - 1)) = toUInt (n - 1) := by
  simp only [toUInt]; omega

theorem nodup_update_filter {tab : Int → List ι} (p : ι → Bool) {j : Int}
    (hn : ∀ i, (tab i).Nodup) (i : Int) : (Function.update tab j ((tab j).filter p) i).Nodup := by
  by_cases h : i = j
  · subst h; simpa using (hn i).filter _
  · rw [Function.update_of_ne h]; exact hn i

theorem AssocOk.delete (h : AssocOk hash keyOf t live) {key : κ}
    (hm : ∃ x ∈ live, keyOf x = key) :
    AssocOk hash keyOf (assocDelete keyOf t key (hash key))
      (live.filter fun it => decide (keyOf it ≠ key)) := by
  obtain ⟨hp, he, hb⟩ := assocDelete_fields keyOf t key (hash key)
  obtain ⟨hc, ho, hpr⟩ := assocDelete_tables h hm
  have hbk := buckets_congr hp he hb
  constructor
  · exact h.keys.sublist (List.filter_sublist.map _)
  · intro hx i x
    rw [he] at hx
    rw [(hbk _).1, (hbk _).2.1, ho, List.mem_filter, decide_eq_true_eq]
    split
    · rename_i hin
      by_cases hi : i = oldbucket t (hash key)
      · subst hi
        rw [Function.update_self, List.mem_filter, h.old hx, decide_eq_true_eq]
        tauto
      · rw [Function.update_of_ne hi, h.old hx]
        constructor
        · rintro ⟨hm, hin, rfl⟩
          exact ⟨⟨hm, fun he => hi (by rw [he])⟩, hin, rfl⟩
        · rintro ⟨⟨hm, _⟩, hin, rfl⟩
          exact ⟨hm, hin, rfl⟩
    · rename_i hin
      rw [h.old hx]
      constructor
      · rintro ⟨hm, hi, rfl⟩
        exact ⟨⟨hm, fun he => hin (he ▸ hi)⟩, hi, rfl⟩
      · rintro ⟨⟨hm, _⟩, hi, rfl⟩
        exact ⟨hm, hi, rfl⟩
  · intro i x
    rw [(hbk _).1, (hbk _).2.2, hpr, List.mem_filter, decide_eq_true_eq]
    split
    · rename_i hin
      rw [h.primary]
      constructor
      · rintro ⟨hm, hi, rfl⟩
        exact ⟨⟨hm, fun he => by rw [he, hin] at hi; cases hi⟩, hi, rfl⟩
      · rintro ⟨⟨hm, _⟩, hi, rfl⟩
        exact ⟨hm, hi, rfl⟩
    · by_cases hi : i = bucket t (hash key)
      · subst hi
        rw [Function.update_self, List.mem_filter, h.primary, decide_eq_true_eq]
        tauto
      · rw [Function.update_of_ne hi, h.primary]
        constructor
        · rintro ⟨hm, hin, rfl⟩
          exact ⟨⟨hm, fun he => hi (by rw [he])⟩, hin, rfl⟩
        · rintro ⟨⟨hm, _⟩, hin, rfl⟩
          exact ⟨hm, hin, rfl⟩
  · intro hx
    rw [he] at hx
    rw [ho]
    split
    · exact nodup_update_filter _ (h.oldNodup hx)
    · exact h.oldNodup hx
  · rw [hpr]
    split
    · exact h.primaryNodup
    · exact nodup_update_filter _ h.primaryNodup
  · have hpos : 0 < live.length := by
      obtain ⟨x, hx, _⟩ := hm
      exact List.length_pos_of_mem hx
    rw [hc, h.count, length_filter_key h.keys hm, toUInt_pred hpos]
  · rw [he, hp, hb]
    exact h.range

end RamCube
