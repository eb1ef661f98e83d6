import RamCube.Store.CommandFrames

/-! # The calls of do_item_get and do_item_alloc

`do_item_get` raises the count of the item it finds, and the walk of `do_item_alloc` raises
those of the items it passes for a moment. A call that meets no full count and repairs no tail
wraps no count around and hands out no chunk that somebody refers to (`StoreCall.Needs.spares`). -/
namespace RamCube

variable {cfg : Settings} {env : AllocEnv} {s s' : Store} {held : Ptr → Nat} {refs : List Ptr} {key : Bytes} {it old : Ptr}

/-- A call of `do_item_get` or `do_item_alloc`, and the store it is made in; `short` is a
call of `do_item_alloc` with a negative length. -/
inductive StoreCall where
  | get (s : Store) (key : Bytes)
  | alloc (env : AllocEnv) (s : Store) (key : Bytes) (flags : Int) (exptime : UInt32) (nbytes : Nat) (curHv : UInt32)
  | short (s : Store) (key : Bytes) (flags nbytes : Int)

/-- The items whose counts the walk of an allocation raises. -/
def walked (cfg : Settings) (env : AllocEnv) (curHv : UInt32) (s : Store) : Nat → Option Ptr → List Ptr
  | 0, _ => []
  | _ + 1, none => []
  | tries + 1, some search =>
    let hv := cfg.hash (s.key search)
    if hv ≠ curHv ∧ env.trylock hv = false then walked cfg env curHv s tries (s.mem search).prev
    else if (s.mem search).refcount ≠ 1 then search :: walked cfg env curHv s tries (s.mem search).prev
    else [search]

instance (s : Store) (newslab : Option (List Ptr)) : Decidable (FreshPage s newslab) :=
  inferInstanceAs (Decidable (∀ page ∈ newslab, _))

instance (cfg : Settings) (s : Store) (p : Ptr) : Decidable (Room cfg s p) := inferInstanceAs (Decidable (_ ∨ _))

namespace StoreCall

def store : StoreCall → Store
  | get s _ => s
  | alloc _ s .. => s
  | short s .. => s

/-- The page that is granted, if the call asks for one. -/
def newslab : StoreCall → Option (List Ptr)
  | get .. | short .. => none
  | alloc env .. => env.newslab

def repairsTail (cfg : Settings) : StoreCall → Bool
  | get .. | short .. => false
  | alloc env s key flags _ nbytes curHv => tailRepairFires cfg env curHv s 5 (s.tails (allocClass cfg key flags nbytes))

/-- The items that `refcount_incr` is called for. -/
def raised (cfg : Settings) : StoreCall → List Ptr
  | get s key => (assocFind s.key s.assoc key (cfg.hash key)).toList
  | alloc env s key flags _ nbytes curHv =>
    if allocClass cfg key flags nbytes = 0 then []
    else walked cfg env curHv s 5 (s.tails (allocClass cfg key flags nbytes))
  | short .. => []

/-- A chunk is taken for the size that the length wraps around to. -/
def overruns (cfg : Settings) : StoreCall → Bool
  | get .. | alloc .. => false
  | short _ key flags nbytes => requestClass cfg key flags nbytes != 0

/-- The chunk that is handed out. -/
def handed (cfg : Settings) : StoreCall → Option Ptr
  | get .. | short .. => none
  | alloc env s key flags exptime nbytes curHv => (doItemAlloc cfg env s key flags exptime nbytes curHv).2

/-- What a call meets: a new page where one is granted, no count that is full, no item that
tail repair takes away from those who refer to it, and no chunk that is too small. -/
@[mk_iff]
structure Needs (cfg : Settings) (call : StoreCall) : Prop where
  page : FreshPage call.store call.newslab
  noRepair : call.repairsTail cfg = false
  room : ∀ p ∈ call.raised cfg, Room cfg call.store p
  inChunk : call.overruns cfg = false

instance (cfg : Settings) (call : StoreCall) : Decidable (call.Needs cfg) := decidable_of_iff' _ (needs_iff cfg call)

/-- No count wraps around, and no chunk that is referred to is handed out. -/
structure Spares (cfg : Settings) (refs : List Ptr) (call : StoreCall) : Prop where
  counts : ∀ p ∈ call.raised cfg, ((refcountIncr cfg call.store p).mem p).refcount = (call.store.mem p).refcount + 1
  handed : ∀ it ∈ call.handed cfg, it ∉ refs

theorem Needs.roomAt (hn : (get s key).Needs cfg) (h : StoreOk cfg s held) : RoomAt cfg s key := fun p hl hk =>
  hn.room p (Option.mem_toList.mpr (h.find_iff.mpr ⟨hl, hk⟩))

theorem Needs.guard {flags : Int} {exptime : UInt32} {nbytes : Nat} {curHv : UInt32}
    (hn : (alloc env s key flags exptime nbytes curHv).Needs cfg) : AllocGuard cfg env s key flags nbytes curHv :=
  ⟨hn.page, hn.noRepair⟩

theorem Spares.mono {call : StoreCall} {refs' : List Ptr} (h : call.Spares cfg refs) (hr : refs' ⊆ refs) : call.Spares cfg refs' :=
  ⟨h.counts, fun it hit hm => h.handed it hit (hr hm)⟩

/-- What is referred to is not handed out. -/
theorem Needs.spares {call : StoreCall} (hn : call.Needs cfg) (h : StoreOk cfg call.store held) (hr : ∀ p ∈ refs, 0 < held p) :
    call.Spares cfg refs := by
  refine ⟨fun p hp => ?_, fun it hit hm => ?_⟩
  · rw [refcountIncr, modify_mem_self]
    obtain hz | hlt := hn.room p hp
    · simp [hz]
    · exact Nat.mod_eq_of_lt hlt
  · cases call with
    | get | short => cases hit
    | alloc env s key flags exptime nbytes curHv =>
      have h : StoreOk cfg s held := h
      have hit : (doItemAlloc cfg env s key flags exptime nbytes curHv).2 = some it := hit
      obtain hnone | ⟨_, _, _, _, he, _, hk, _⟩ := doItemAlloc_spec h hn.page key flags exptime nbytes curHv hn.noRepair
      · rw [hnone] at hit
        cases hit
      · rw [he] at hit
        cases hit
        have hrefs := StoreOk.refcount_eq h it
        rw [hk.count] at hrefs
        have hpos := hr it hm
        omega

end StoreCall

/-! ## The calls of the commands -/

/-- The calls of `do_store_item`. -/
def storeCalls (cfg : Settings) (env : AllocEnv) (s : Store) (it : Ptr) (comm : NRead) : List StoreCall :=
  .get s (s.key it) :: match doItemGet cfg s (s.key it) (cfg.hash (s.key it)) with
  | (_, none) => []
  | (s', some old) =>
    if (comm = .append ∨ comm = .prepend) ∧ ¬(itemGetCas (s'.mem it) ≠ 0 ∧ itemGetCas (s'.mem it) ≠ itemGetCas (s'.mem old)) then
      [.alloc env s' (s.key it) (itemFlags (s'.mem old)) (s'.mem old).exptime ((s'.mem it).nbytes + (s'.mem old).nbytes - 2)
        (cfg.hash (s.key it))]
    else []

/-- The calls of `do_add_delta`. -/
def deltaCalls (cfg : Settings) (env : AllocEnv) (s : Store) (key : Bytes) (incr : Bool) (delta cas : UInt64) : List StoreCall :=
  .get s key :: match doItemGet cfg s key (cfg.hash key) with
  | (_, none) => []
  | (s', some old) =>
    if cas ≠ 0 ∧ itemGetCas (s'.mem old) ≠ cas then []
    else match safeStrtoull (dataString cfg (s'.mem old)) with
    | none => []
    | some value =>
      let buf := decimal (deltaValue incr delta value).toNat
      let i := s'.mem old
      if i.nbytes < buf.length + 2 ∨ i.refcount ≠ 1 then
        [.alloc env s' key (strtol ((itemSuffix i).drop 1)) i.exptime (buf.length + 2) (cfg.hash key)]
      else []

/-- Calls that are made one after the other meet what they need. -/
def CallsNeed (cfg : Settings) (calls : List StoreCall) : Prop := ∀ call ∈ calls, call.Needs cfg

instance (cfg : Settings) (calls : List StoreCall) : Decidable (CallsNeed cfg calls) :=
  inferInstanceAs (Decidable (∀ call ∈ calls, call.Needs cfg))

def CallsSpare (cfg : Settings) (refs : List Ptr) (calls : List StoreCall) : Prop := ∀ call ∈ calls, call.Spares cfg refs

theorem callsSpare_nil : CallsSpare cfg refs [] := by simp [CallsSpare]

theorem callsSpare_cons {call : StoreCall} {calls : List StoreCall} (h : call.Spares cfg refs) (hs : CallsSpare cfg refs calls) :
    CallsSpare cfg refs (call :: calls) := by
  intro c hc
  obtain rfl | hc := List.mem_cons.mp hc
  · exact h
  · exact hs c hc

theorem callsSpare_append {calls calls' : List StoreCall} (h : CallsSpare cfg refs calls) (h' : CallsSpare cfg refs calls') :
    CallsSpare cfg refs (calls ++ calls') := by
  intro c hc
  obtain hc | hc := List.mem_append.mp hc
  · exact h c hc
  · exact h' c hc

theorem CallsNeed.head {call : StoreCall} {calls : List StoreCall} (h : CallsNeed cfg (call :: calls)) : call.Needs cfg :=
  h call List.mem_cons_self

theorem CallsNeed.tail {call : StoreCall} {calls : List StoreCall} (h : CallsNeed cfg (call :: calls)) : CallsNeed cfg calls :=
  fun c hc => h c (List.mem_cons_of_mem call hc)

theorem CallsNeed.left {calls calls' : List StoreCall} (h : CallsNeed cfg (calls ++ calls')) : CallsNeed cfg calls :=
  fun c hc => h c (List.mem_append_left _ hc)

theorem CallsNeed.right {calls calls' : List StoreCall} (h : CallsNeed cfg (calls ++ calls')) : CallsNeed cfg calls' :=
  fun c hc => h c (List.mem_append_right _ hc)

/-- Calls that find the same store. -/
theorem CallsNeed.spare {calls : List StoreCall} (hn : CallsNeed cfg calls) (h : StoreOk cfg s held)
    (hs : ∀ call ∈ calls, call.store = s) (hr : ∀ p ∈ refs, 0 < held p) : CallsSpare cfg refs calls := fun call hc =>
  (hn call hc).spares (hs call hc ▸ h) hr

/-- A lookup, and the calls that are made in the store that it leaves. -/
theorem CallsNeed.spare_get {calls : List StoreCall} (hn : CallsNeed cfg (.get s key :: calls)) (h : StoreOk cfg s held)
    (hs : ∀ call ∈ calls, (doItemGet cfg s key (cfg.hash key)).2.isSome ∧ call.store = (doItemGet cfg s key (cfg.hash key)).1)
    (hr : ∀ p ∈ refs, 0 < held p) : CallsSpare cfg refs (.get s key :: calls) := by
  refine callsSpare_cons (hn.head.spares h hr) ?_
  rcases doItemGet_outcome h (hn.head.roomAt h) with ⟨s', he, _⟩ | ⟨s', old, he, hg⟩
  · rw [he] at hs
    refine fun call hc => ?_
    cases (hs call hc).1
  · rw [he] at hs
    refine hn.tail.spare (hg.ok h) (fun call hc => (hs call hc).2) fun p hp => ?_
    by_cases hpo : p = old
    · exact hpo ▸ addRef_self held old
    · exact addRef_other (hr p hp) hpo

theorem storeCalls_spare {comm : NRead} (h : StoreOk cfg s held) (hn : CallsNeed cfg (storeCalls cfg env s it comm))
    (hr : ∀ p ∈ refs, 0 < held p) : CallsSpare cfg refs (storeCalls cfg env s it comm) := by
  refine hn.spare_get h (fun call hc => ?_) hr
  rcases he : doItemGet cfg s (s.key it) (cfg.hash (s.key it)) with ⟨s', _ | old⟩ <;> rw [he] at hc
  · cases hc
  · dsimp only at hc
    split at hc
    · obtain rfl := List.mem_singleton.mp hc
      exact ⟨rfl, rfl⟩
    · cases hc

theorem deltaCalls_spare {incr : Bool} {delta cas : UInt64} (h : StoreOk cfg s held)
    (hn : CallsNeed cfg (deltaCalls cfg env s key incr delta cas)) (hr : ∀ p ∈ refs, 0 < held p) :
    CallsSpare cfg refs (deltaCalls cfg env s key incr delta cas) := by
  refine hn.spare_get h (fun call hc => ?_) hr
  rcases he : doItemGet cfg s key (cfg.hash key) with ⟨s', _ | old⟩ <;> rw [he] at hc
  · cases hc
  · dsimp only at hc
    split at hc
    · cases hc
    · cases hv : safeStrtoull (dataString cfg (s'.mem old)) <;> rw [hv] at hc
      · cases hc
      · dsimp only at hc
        split at hc
        · obtain rfl := List.mem_singleton.mp hc
          exact ⟨rfl, rfl⟩
        · cases hc

/-! ## What the commands need -/

theorem storeCalls_guard {comm : NRead} (h : StoreOk cfg s held) (hn : CallsNeed cfg (storeCalls cfg env s it comm))
    (hh : 0 < held it) (hl : (s.mem it).linked = false) (hroom : Room cfg s it) : StoreGuard cfg env s held it comm := by
  refine ⟨hh, hl, hroom, hn.head.roomAt h, fun s' old he hm => ?_⟩
  unfold MergeWanted at hm
  have hcopy := hn.tail
  rw [he] at hcopy
  dsimp only at hcopy
  rw [if_pos hm] at hcopy
  exact hcopy.head.guard

/-- Where `do_add_delta` finds its item and no other `cas` is named. -/
theorem deltaCalls_guard {incr : Bool} {delta cas : UInt64} (h : StoreOk cfg s held)
    (hn : CallsNeed cfg (deltaCalls cfg env s key incr delta cas))
    (hc : ∀ s' old, doItemGet cfg s key (cfg.hash key) = (s', some old) → ¬(cas ≠ 0 ∧ itemGetCas (s'.mem old) ≠ cas)) :
    DeltaGuard cfg env s key incr delta := by
  have hroom := hn.head.roomAt h
  refine ⟨hroom, fun s' old value he hv => ?_⟩
  have hg : Got cfg s held key s' old := by
    rcases doItemGet_outcome h hroom with ⟨_, he', _⟩ | ⟨_, _, he', hg⟩ <;> cases he.symm.trans he'
    exact hg
  have halloc := hn.tail
  rw [he] at halloc
  dsimp only at halloc
  rw [if_neg (hc s' old he), hv] at halloc
  dsimp only at halloc
  rw [if_pos (.inr (hg.shared h))] at halloc
  exact halloc.head.guard

end RamCube
