import RamCube.Store.Assoc

/-! # Runs of the hash table

The table under any sequence of inserts, deletes, expansions and migrated
buckets, next to the items that were inserted and not yet deleted. The table
finds exactly these as long as it never grows beyond what the `int` bucket of
`assoc_maintenance_thread` and the `unsigned int` counters can name. -/
namespace RamCube

variable {ι κ : Type}

inductive AssocOp (ι κ : Type) where
  | insert (it : ι)
  | delete (key : κ)
  | expand (callocOk : Bool)
  | migrate

/-- The table together with the items inserted and not yet deleted. -/
structure AssocState (ι : Type) where
  table : Assoc ι
  live : List ι

inductive AssocStep [DecidableEq κ] (hash : κ → UInt32) (keyOf : ι → κ) :
    AssocState ι → AssocOp ι κ → AssocState ι → Prop where
  | insert (s : AssocState ι) (it : ι) : (∀ x ∈ s.live, keyOf x ≠ keyOf it) →
      AssocStep hash keyOf s (.insert it)
        ⟨assocInsert s.table it (hash (keyOf it)), it :: s.live⟩
  | delete (s : AssocState ι) (key : κ) : (∃ x ∈ s.live, keyOf x = key) →
      AssocStep hash keyOf s (.delete key)
        ⟨assocDelete keyOf s.table key (hash key),
          s.live.filter fun it => decide (keyOf it ≠ key)⟩
  | expand (s : AssocState ι) (callocOk : Bool) : s.table.expanding = false →
      AssocStep hash keyOf s (.expand callocOk) ⟨assocExpand s.table callocOk, s.live⟩
  | migrate (s : AssocState ι) : s.table.expanding = true →
      AssocStep hash keyOf s .migrate ⟨migrateBucket hash keyOf s.table, s.live⟩

/-- The sizes the C types can hold: at most `2 ^ 31` buckets in a table that
an expansion fills, since their offsets pass through an `int`, and fewer than
`2 ^ 32` items, since `hash_items` is an `unsigned int`. -/
def InRange (s : AssocState ι) : AssocOp ι κ → Prop
  | .insert _ => s.live.length + 1 < 2 ^ 32
  | .expand callocOk => callocOk = true → s.table.hashpower ≤ 30
  | _ => True

structure AssocStateOk (hash : κ → UInt32) (keyOf : ι → κ) (s : AssocState ι) : Prop where
  table : AssocOk hash keyOf s.table s.live
  few : s.live.length < 2 ^ 32

variable [DecidableEq κ] {hash : κ → UInt32} {keyOf : ι → κ}

theorem AssocStep.keeps {s s' : AssocState ι} {op : AssocOp ι κ} (h : AssocStateOk hash keyOf s)
    (hc : InRange s op) (hs : AssocStep hash keyOf s op s') : AssocStateOk hash keyOf s' := by
  cases hs with
  | insert it hk => exact ⟨h.table.insert hk, hc⟩
  | delete key hm =>
    exact ⟨h.table.delete hm, lt_of_le_of_lt (List.length_filter_le _ _) h.few⟩
  | expand callocOk he => exact ⟨h.table.expand he hc, h.few⟩
  | migrate he => exact ⟨h.table.migrate he, h.few⟩

omit [DecidableEq κ] in
theorem assocStateOk_init (n : Nat) : AssocStateOk hash keyOf ⟨assocInit n, []⟩ :=
  ⟨assocOk_init n, by simp⟩

/-- In a run within range the table finds exactly the items inserted and not yet
deleted, counts them, and ends each expansion with an empty old table. -/
theorem assoc_run_refines {n : Nat} {ops : List (AssocOp ι κ)} {s : AssocState ι}
    (hr : Run (Guarded InRange (AssocStep hash keyOf)) ⟨assocInit n, []⟩ ops s) :
    (∀ key x, assocFind keyOf s.table key (hash key) = some x ↔ x ∈ s.live ∧ keyOf x = key) ∧
    (∀ key, assocFind keyOf s.table key (hash key) = none ↔ ∀ x ∈ s.live, keyOf x ≠ key) ∧
    s.table.hashItems = s.live.length ∧
    ∀ s', AssocStep hash keyOf s .migrate s' → s'.table.expanding = false →
      ∀ i, s'.table.oldHashtable i = [] := by
  have h : AssocStateOk hash keyOf s :=
    hr.invariant_of_guard (fun _ _ _ hi hc hs => hs.keeps hi hc) (assocStateOk_init n)
  refine ⟨fun key x => assocFind_eq_some h.table, fun key => assocFind_eq_none h.table, ?_, ?_⟩
  · rw [h.table.count, toUInt_of_lt h.few]
  · intro s' hs hend
    cases hs with
    | migrate he => exact h.table.migrate_last he hend

theorem assoc_run_refines_insert :
    assocFind id (assocInsert (assocInit 16) 7 7) 7 7 = some (7 : UInt32) ∧
      (assocInsert (assocInit 16) (7 : UInt32) 7).hashItems = 1 := by
  have hr : Run (Guarded InRange (AssocStep id id)) ⟨assocInit 16, []⟩ [.insert 7]
      ⟨assocInsert (assocInit 16) (7 : UInt32) 7, [7]⟩ :=
    .single ⟨by simp [InRange], .insert ⟨assocInit 16, []⟩ 7 (by simp)⟩
  have h := assoc_run_refines hr
  exact ⟨(h.1 7 7).mpr ⟨by simp, rfl⟩, h.2.2.1⟩

/-- At `2 ^ 32` buckets the `int` bucket of the migrating thread turns negative: the
item leaves the old table for an offset no lookup reads. -/
theorem assoc_migration_loses_item : ¬ ∀ (n : Nat) (ops : List (AssocOp UInt32 UInt32))
    (s : AssocState UInt32), Run (AssocStep id id) ⟨assocInit n, []⟩ ops s →
      ∀ x ∈ s.live, assocFind id s.table x x = some x := by
  intro h
  have hr : Run (AssocStep id id) ⟨assocInit 31, []⟩ [.insert 0x80000000, .expand true, .migrate]
      ⟨migrateBucket id id (assocExpand (assocInsert (assocInit 31) 0x80000000 0x80000000) true),
        [(0x80000000 : UInt32)]⟩ :=
    .cons (.insert _ _ (by simp)) (.cons (.expand _ true rfl) (.single (.migrate _ rfl)))
  have hf := h 31 _ _ hr 0x80000000 (by simp)
  revert hf
  decide

end RamCube
