import RamCube.Store.ItemsRun

/-! # The memory of items, with the locks that are taken for it

The functions of items.c once more, with what `Items` leaves out: the pages of each slab
class, the bytes it counts as requested, and the item locks that `do_item_alloc` takes on
its way along the tail of a queue. What happens to the store is the same, as the lemmas
named `store` say. -/
namespace RamCube

/-- The store, the pages of each class (each as the list of its chunks) and the bytes
requested from it. -/
structure ItemMemory where
  store : Store
  slabList : SlabId → List (List Ptr)
  requested : SlabId → UInt64

namespace ItemMemory

variable (cfg : Settings) (m : ItemMemory)

def onStore (f : Store → Store) : ItemMemory := { m with store := f m.store }

/-! ## Slab chunks -/

def slabsFree (it : Ptr) (size : Nat) (id : SlabId) : ItemMemory :=
  if id.val < 1 ∨ cfg.slabclass.sizes.length < id.val then m
  else { m with
    store := RamCube.slabsFree cfg m.store it id
    requested := Function.update m.requested id (m.requested id - UInt64.ofNat size) }

def slabsNewslab (id : SlabId) (page : List Ptr) : ItemMemory :=
  { m with
    store := RamCube.slabsNewslab m.store id page
    slabList := Function.update m.slabList id (m.slabList id ++ [page]) }

def slabsAlloc (size : Nat) (id : SlabId) (newslab : Option (List Ptr)) : ItemMemory × Option Ptr :=
  let m := match m.store.slots id, newslab with
    | [], some page => m.slabsNewslab id page
    | _, _ => m
  match m.store.slots id with
  | [] => (m, none)
  | it :: rest =>
    ({ m with
      store := { m.store with slots := Function.update m.store.slots id rest }
      requested := Function.update m.requested id (m.requested id + UInt64.ofNat size) }, some it)

/-- The class is the one of a stored item; the function aborts on no class. -/
def slabsAdjustMemRequested (id : SlabId) (old ntotal : Nat) : ItemMemory :=
  { m with
    requested := Function.update m.requested id
      (m.requested id - UInt64.ofNat old + UInt64.ofNat ntotal) }

def itemFree (it : Ptr) : ItemMemory :=
  let ntotal := itemNtotal (m.store.mem it)
  let clsid := (m.store.mem it).slabsClsid
  (m.onStore fun s => s.modify it fun i => { i with slabsClsid := 0 }).slabsFree cfg it ntotal clsid

/-! ## Linking and unlinking -/

def doItemRemove (it : Ptr) : ItemMemory :=
  let m := m.onStore fun s => refcountDecr cfg s it
  if (m.store.mem it).refcount = 0 then m.itemFree cfg it else m

def doItemUnlinkNolock (it : Ptr) (hv : UInt32) : ItemMemory :=
  if (m.store.mem it).linked then
    (m.onStore fun s => unlinkItem s it hv).doItemRemove cfg it
  else m

def doItemReplace (it newIt : Ptr) (hv : UInt32) : ItemMemory :=
  (m.doItemUnlinkNolock cfg it hv).onStore fun s => doItemLink cfg s newIt hv

def doItemGet (key : Bytes) (hv : UInt32) : ItemMemory × Option Ptr :=
  match assocFind m.store.key m.store.assoc key hv with
  | none => (m, none)
  | some it =>
    let m := m.onStore fun s => refcountIncr cfg s it
    if inRebalance m.store it then ((m.doItemUnlinkNolock cfg it hv).doItemRemove cfg it, none)
    else if flushedOrExpired m.store (m.store.mem it) then
      ((m.doItemUnlinkNolock cfg it hv).doItemRemove cfg it, none)
    else (m.onStore fun s => s.modify it fun i => { i with fetched := true }, some it)

def doItemTouch (key : Bytes) (exptime : UInt32) (hv : UInt32) : ItemMemory × Option Ptr :=
  match m.doItemGet cfg key hv with
  | (m, none) => (m, none)
  | (m, some it) => (m.onStore fun s => s.modify it fun i => { i with exptime := exptime }, some it)

def flushClass (m : ItemMemory) : Nat → Option Ptr → ItemMemory
  | 0, _ => m
  | _ + 1, none => m
  | fuel + 1, some iter =>
    if m.store.oldestLive ≤ (m.store.mem iter).time then
      let next := (m.store.mem iter).next
      let m := if (m.store.mem iter).slabbed then m
        else m.doItemUnlinkNolock cfg iter (cfg.hash (m.store.key iter))
      m.flushClass fuel next
    else m

def doItemFlushExpired : ItemMemory :=
  if m.store.oldestLive = 0 then m
  else (List.finRange LARGEST_ID).foldl
    (fun m i => m.flushClass cfg (m.store.sizes i) (m.store.heads i)) m

/-! ## The store is the same -/

@[simp]
theorem store_onStore (f : Store → Store) : (m.onStore f).store = f m.store := rfl

@[simp]
theorem store_slabsFree (it : Ptr) (size : Nat) (id : SlabId) :
    (m.slabsFree cfg it size id).store = RamCube.slabsFree cfg m.store it id := by
  unfold slabsFree
  split
  · rename_i h
    rw [RamCube.slabsFree, if_pos h]
  · rfl

theorem store_slabsAlloc (size : Nat) (id : SlabId) (newslab : Option (List Ptr)) :
    (m.slabsAlloc size id newslab).1.store = (RamCube.slabsAlloc m.store id newslab).1 ∧
      (m.slabsAlloc size id newslab).2 = (RamCube.slabsAlloc m.store id newslab).2 := by
  unfold slabsAlloc RamCube.slabsAlloc
  cases hs : m.store.slots id <;> cases newslab <;> simp only [slabsNewslab] <;> split <;>
    simp_all

@[simp]
theorem store_itemFree (it : Ptr) : (m.itemFree cfg it).store = RamCube.itemFree cfg m.store it :=
  store_slabsFree _ _ _ _ _

@[simp]
theorem store_doItemRemove (it : Ptr) :
    (m.doItemRemove cfg it).store = RamCube.doItemRemove cfg m.store it := by
  unfold doItemRemove
  dsimp only
  split
  · rename_i h0
    exact (store_itemFree _ _ _).trans (if_pos h0).symm
  · rename_i h0
    exact (if_neg h0).symm

@[simp]
theorem store_unlink (it : Ptr) (hv : UInt32) :
    (m.doItemUnlinkNolock cfg it hv).store = RamCube.doItemUnlinkNolock cfg m.store it hv := by
  rw [doItemUnlinkNolock, doItemUnlinkNolock_eq]
  split
  · exact store_doItemRemove _ _ _
  · rfl

@[simp]
theorem store_replace (it newIt : Ptr) (hv : UInt32) :
    (m.doItemReplace cfg it newIt hv).store = RamCube.doItemReplace cfg m.store it newIt hv := by
  rw [doItemReplace, store_onStore, store_unlink]
  rfl

theorem store_get (key : Bytes) (hv : UInt32) :
    (m.doItemGet cfg key hv).1.store = (RamCube.doItemGet cfg m.store key hv).1 ∧
      (m.doItemGet cfg key hv).2 = (RamCube.doItemGet cfg m.store key hv).2 := by
  unfold doItemGet
  cases hf : assocFind m.store.key m.store.assoc key hv with
  | none => simp [RamCube.doItemGet, hf]
  | some it =>
    dsimp only
    split
    · rename_i hr
      rw [store_onStore] at hr
      simp [RamCube.doItemGet, hf, hr]
    · split
      · rename_i hr he
        rw [store_onStore] at hr he
        simp [RamCube.doItemGet, hf, hr, he, doItemUnlink]
      · rename_i hr he
        rw [store_onStore] at hr he
        simp [RamCube.doItemGet, hf, hr, he]

theorem store_touch (key : Bytes) (exptime : UInt32) (hv : UInt32) :
    (m.doItemTouch cfg key exptime hv).1.store = (RamCube.doItemTouch cfg m.store key exptime hv).1 ∧
      (m.doItemTouch cfg key exptime hv).2 = (RamCube.doItemTouch cfg m.store key exptime hv).2 := by
  obtain ⟨h1, h2⟩ := m.store_get cfg key hv
  unfold doItemTouch RamCube.doItemTouch
  generalize m.doItemGet cfg key hv = r at *
  generalize RamCube.doItemGet cfg m.store key hv = r' at *
  obtain ⟨m1, it⟩ := r
  obtain ⟨s1, it'⟩ := r'
  dsimp only at h1 h2
  subst h1 h2
  cases it <;> exact ⟨rfl, rfl⟩

@[simp]
theorem store_flushClass (fuel : Nat) (iter : Option Ptr) :
    (m.flushClass cfg fuel iter).store = RamCube.flushClass cfg fuel iter m.store := by
  induction fuel generalizing iter m with
  | zero => rfl
  | succ fuel ih =>
    cases iter with
    | none => rfl
    | some iter =>
      simp only [flushClass, RamCube.flushClass]
      split
      · rw [ih]
        split
        · rfl
        · rw [store_unlink]
      · rfl

theorem store_flush : (m.doItemFlushExpired cfg).store = RamCube.doItemFlushExpired cfg m.store := by
  unfold doItemFlushExpired RamCube.doItemFlushExpired
  split
  · rfl
  · rename_i h0
    clear h0
    generalize List.finRange LARGEST_ID = classes
    induction classes generalizing m with
    | nil => rfl
    | cons c cs ih => rw [List.foldl_cons, List.foldl_cons, ih, store_flushClass]

end ItemMemory
end RamCube
