import RamCube.Store.CommandFrames

/-! # When an item expires

A storage command or a touch gives an item an expiry time, relative, absolute or
negative; `realtime` and the clean-up of `process_update_command` turn it into a time of
the 32-bit clock. An item that is only read afterwards is returned exactly as long as the
client asked, unless the sum wraps around, a touch was given a negative time from before
the clock began, or a flush mark set in advance comes first. -/
namespace RamCube

variable {cfg : Settings} {processStarted : Int} {s s' : ItemsState} {it : Ptr} {key : Bytes} {e : Int}

/-- Should an item that was given the expiry time `e` at `now` be returned at `t`? -/
def Wanted (processStarted now e t : Int) : Prop :=
  e = 0 ∨ (0 < e ∧ e ≤ REALTIME_MAXDELTA ∧ t < now + e) ∨
    (REALTIME_MAXDELTA < e ∧ t < e - processStarted)

/-- `process_update_command` cleans up a negative expiry time before it calls `realtime`. -/
def updateExptime (exptime : Int) : Int :=
  if exptime < 0 then REALTIME_MAXDELTA + 1 else exptime

/-- The expiry time a command leaves in the item; `process_touch_command` cleans up nothing. -/
def commandExptime (processStarted : Int) (s : Store) (touch : Bool) (exptime : Int) : UInt32 :=
  realtime processStarted s (if touch then exptime else updateExptime exptime)

/-- Is an item stored or touched at `since` no longer returned at `now`? -/
def Hidden (exptime mark since now : UInt32) : Prop :=
  exptime ≠ 0 ∧ exptime ≤ now ∨ mark ≠ 0 ∧ since ≤ mark ∧ mark ≤ now

/-! ## The clock -/

theorem realtime_toNat (hstart : REALTIME_MAXDELTA < processStarted) (hhi : e < 2 ^ 31) (s : Store) :
    ((realtime processStarted s e).toNat : Int) =
      if e = 0 then 0
      else if REALTIME_MAXDELTA < e then max 1 (e - processStarted)
      else (e + s.currentTime.toNat) % 2 ^ 32 := by
  have hofInt : ∀ x : Int, ((UInt32.ofInt x).toNat : Int) = x % 2 ^ 32 := by
    intro x
    unfold UInt32.ofInt
    rw [UInt32.toNat_ofNat']
    omega
  unfold realtime
  split
  · rfl
  · split
    · unfold REALTIME_MAXDELTA at *
      split
      · rw [max_eq_left (by omega)]
        rfl
      · rw [hofInt, max_eq_right (by omega)]
        omega
    · exact hofInt _

theorem hidden_iff {exptime mark since now : UInt32} : Hidden exptime mark since now ↔
    exptime.toNat ≠ 0 ∧ exptime.toNat ≤ now.toNat ∨
      mark.toNat ≠ 0 ∧ since.toNat ≤ mark.toNat ∧ mark.toNat ≤ now.toNat := by
  have h0 : ∀ x : UInt32, x ≠ 0 ↔ x.toNat ≠ 0 := fun x => by
    rw [not_iff_not, ← UInt32.toNat_inj]
    rfl
  simp only [Hidden, h0, UInt32.le_iff_toNat_le]

theorem wanted_negative {now t : Int} (h : e < 0) : ¬Wanted processStarted now e t := by
  unfold Wanted REALTIME_MAXDELTA
  omega

theorem wanted_relative {now t : Int} (h : 0 < e) (hle : e ≤ REALTIME_MAXDELTA) :
    Wanted processStarted now e t ↔ t < now + e := by
  unfold Wanted REALTIME_MAXDELTA at *
  omega

theorem wanted_absolute {now t : Int} (h : REALTIME_MAXDELTA < e) :
    Wanted processStarted now e t ↔ t < e - processStarted := by
  unfold Wanted REALTIME_MAXDELTA at *
  omega

/-- The inputs on which the clock arithmetic does what the client asked: a negative touch
does not reach before the clock began, the sum does not wrap around, and no flush mark
comes before the item expires. -/
def ExpiresInRange (processStarted : Int) (now : UInt32) (touch : Bool) (exptime : Int)
    (mark since : UInt32) : Prop :=
  (touch = true → exptime < 0 → 0 < now.toNat + exptime) ∧
    (0 < exptime → exptime ≤ REALTIME_MAXDELTA → now.toNat + exptime ≤ 2 ^ 32) ∧
    (mark = 0 ∨ mark < since ∨ ¬Wanted processStarted now.toNat exptime mark.toNat)

section

variable {store : Store} {touch : Bool} {mark since : UInt32} (hstart : REALTIME_MAXDELTA < processStarted)
  (hlo : -2 ^ 31 ≤ e) (hhi : e < 2 ^ 31) (htwo : 2 ≤ store.currentTime) (hnow : store.currentTime ≤ since)
  (htouch : touch = true → since = store.currentTime ∧ mark ≠ since)
include hstart hlo hhi htwo hnow htouch

/-- An item is hidden exactly when it should not be returned, at every time from now on. -/
theorem hidden_exact_iff :
    (∀ now, since ≤ now → (¬Hidden (commandExptime processStarted store touch e) mark since now ↔
      Wanted processStarted store.currentTime.toNat e now.toNat)) ↔
    ExpiresInRange processStarted store.currentTime touch e mark since := by
  unfold commandExptime
  generalize hexp : (if touch then e else updateExptime e) = exptime
  have hupdate : updateExptime e = if e < 0 then REALTIME_MAXDELTA + 1 else e := rfl
  have hfits : exptime < 2 ^ 31 := by
    unfold REALTIME_MAXDELTA at hupdate
    split_ifs at hexp hupdate <;> omega
  have hx := realtime_toNat hstart hfits store
  rw [UInt32.le_iff_toNat_le] at htwo hnow
  have hsince := since.toNat_lt
  have hm0 : mark = 0 ↔ mark.toNat = 0 := by
    rw [← UInt32.toNat_inj]
    rfl
  have hm : mark = since ↔ mark.toNat = since.toNat := UInt32.toNat_inj.symm
  have hs : since = store.currentTime ↔ since.toNat = store.currentTime.toNat := UInt32.toNat_inj.symm
  rw [ne_eq, hm, hs] at htouch
  have hclock : ∀ now : UInt32, now.toNat < 2 ^ 32 := fun now => now.toNat_lt
  simp only [hidden_iff, UInt32.le_iff_toNat_le, ExpiresInRange, UInt32.lt_iff_toNat_lt, hm0]
  generalize (realtime processStarted store exptime).toNat = x at *
  rw [hupdate] at hexp
  simp only [UInt32.reduceToNat] at *
  -- what goes wrong shows at once, or when the flush mark comes
  rcases lt_trichotomy e 0 with h0 | rfl | h0
  · simp only [wanted_negative h0, not_false_eq_true, or_true, and_true, iff_false, not_not]
    rcases touch with _ | _
    · have hone : x = 1 := by
        simp only [Bool.false_eq_true, if_false, if_pos h0] at hexp
        unfold REALTIME_MAXDELTA at *
        omega
      exact ⟨fun _ => ⟨nofun, by omega⟩, fun _ now hle => .inl (by omega)⟩
    · obtain ⟨hs, hne⟩ := htouch rfl
      have hsum : (x : Int) = (e + store.currentTime.toNat) % 2 ^ 32 := by
        obtain rfl : e = exptime := hexp
        rw [hx, if_neg (by omega), if_neg (by unfold REALTIME_MAXDELTA; omega)]
      refine ⟨fun h => ⟨fun _ _ => ?_, by omega⟩, fun h now hle => .inl ?_⟩
      · have hat := h since (Nat.le_refl _)
        omega
      · have hpos := h.1 rfl h0
        omega
  · have hzero : x = 0 := by
      obtain rfl : 0 = exptime := by simpa using hexp
      simpa using hx
    have hwanted : ∀ t, Wanted processStarted store.currentTime.toNat 0 t := fun t => .inl rfl
    simp only [hwanted, hzero, iff_true, not_true_eq_false, or_false]
    refine ⟨fun h => ⟨by omega, by omega, ?_⟩, fun h now hle => by omega⟩
    have hmark := h mark
    omega
  · obtain rfl : e = exptime := by
      split_ifs at hexp <;> omega
    rw [if_neg (by omega)] at hx
    by_cases hrel : e ≤ REALTIME_MAXDELTA
    · rw [if_neg (by omega)] at hx
      simp only [wanted_relative h0 hrel]
      constructor
      · intro h
        have hat := h since (Nat.le_refl _)
        have hmark := h mark
        refine ⟨by omega, fun _ _ => ?_, ?_⟩ <;> omega
      · intro h now hle
        have hfit := h.2.1 h0 hrel
        have hn := hclock now
        omega
    · rw [if_pos (by omega)] at hx
      simp only [wanted_absolute (Int.not_le.mp hrel)]
      constructor
      · intro h
        have hmark := h mark
        refine ⟨by omega, fun _ hle => absurd hle hrel, ?_⟩
        omega
      · intro h now hle
        have hmark := h.2.2
        omega
end

/-! ## An item that is only read -/

/-- A step after the command: a retrieval of the key, or anything that is not about the
key. An allocation may take the chunk of the item only when it is no longer alive. -/
def LaterStep (cfg : Settings) (processStarted : Int) (key : Bytes) (it : Ptr) (s : ItemsState)
    (op : ClientOp) (s' : ItemsState) : Prop :=
  Guarded (Unhindered cfg processStarted) (ClientStep cfg processStarted) s op s' ∧
    (op = .get key ∨ ¬Names s op key) ∧
    (Allocates op → (s.store.mem it).linked = true → flushedOrExpired s.store (s.store.mem it) = false →
      (s'.store.mem it).linked = true ∧ s'.store.key it = key)

/-- The item is stored under its key as the command left it, read or not. -/
structure Stays (s : Store) (key : Bytes) (it : Ptr) (exptime mark since : UInt32) : Prop where
  linked : (s.mem it).linked = true
  key : s.key it = key
  exptime : (s.mem it).exptime = exptime
  newer : mark ≠ 0 → mark < since → mark < (s.mem it).time
  older : mark ≠ 0 → since ≤ mark → (s.mem it).time ≤ mark

/-- What holds after the command: the item stays, or nothing is stored under the key and the
item should be hidden. -/
structure AfterCommand (cfg : Settings) (key : Bytes) (it : Ptr) (exptime mark since : UInt32)
    (s : ItemsState) : Prop where
  inv : ClientInv cfg s
  oldestLive : s.store.oldestLive = mark
  later : since ≤ s.store.currentTime
  item : Stays s.store key it exptime mark since ∨
    (∀ p, (s.store.mem p).linked = true → s.store.key p ≠ key) ∧
      Hidden exptime mark since s.store.currentTime

section

variable {exptime mark since : UInt32}

theorem Stays.dead_iff {s : Store} (h : Stays s key it exptime mark since) (hm : s.oldestLive = mark) :
    flushedOrExpired s (s.mem it) = true ↔ Hidden exptime mark since s.currentTime := by
  simp only [flushedOrExpired, Bool.or_eq_true, Bool.and_eq_true, decide_eq_true_eq, bne_iff_ne, hm, h.exptime,
    Hidden]
  constructor
  · rintro (⟨⟨h0, hle⟩, htime⟩ | hexp)
    · refine .inr ⟨h0, ?_, hle⟩
      by_contra hlt
      exact absurd (h.newer h0 (UInt32.not_le.mp hlt)) (UInt32.not_lt.mpr htime)
    · exact .inl hexp
  · rintro (hexp | ⟨h0, hsince, hle⟩)
    · exact .inr hexp
    · exact .inl ⟨⟨h0, hle⟩, h.older h0 hsince⟩

theorem Hidden.later {now now' : UInt32} (h : Hidden exptime mark since now) (hle : now ≤ now') :
    Hidden exptime mark since now' :=
  h.imp (fun h => ⟨h.1, UInt32.le_trans h.2 hle⟩) fun h => ⟨h.1, h.2.1, UInt32.le_trans h.2.2 hle⟩

theorem Stays.untouched {s s' : Store} (h : Stays s key it exptime mark since) (hu : Untouched s s' it) :
    Stays s' key it exptime mark since where
  linked := hu.linked.trans h.linked
  key := hu.sameKey.trans h.key
  exptime := (exptime_of_body hu.body).trans h.exptime
  newer := by
    rw [time_of_body hu.body]
    exact h.newer
  older := by
    rw [time_of_body hu.body]
    exact h.older

/-- A retrieval returns the item exactly as long as it should not be hidden. -/
theorem AfterCommand.returned_iff (h : AfterCommand cfg key it exptime mark since s) :
    (getItem cfg s.store key).2 = some it ↔ ¬Hidden exptime mark since s.store.currentTime := by
  rcases h.item with hstays | ⟨habsent, hhidden⟩
  · rw [getItem_returns h.inv.ok h.inv.rebal hstays.linked hstays.key, ← hstays.dead_iff h.oldestLive]
    simp
  · have hnone : (getItem cfg s.store key).2 = none := by
      unfold getItem
      rcases doItemGet_cases h.inv.ok key with ⟨he, _⟩ | ⟨q, s', he, hl, hk, _⟩ | ⟨q, s', he, hl, hk, _⟩
      · rw [he]
      · exact absurd hk (habsent q hl)
      · exact absurd hk (habsent q hl)
    simp [hnone, hhidden]

/-- Reading the item leaves it where it is, or removes it when it should be hidden. -/
theorem Stays.read {s : Store} {held : Ptr → Nat} (h : Stays s key it exptime mark since)
    (hok : StoreOk cfg s held) (hreb : s.slabRebal = none) (hm : s.oldestLive = mark)
    (hsince : since ≤ s.currentTime) (hr : RoomAt cfg s key) :
    Stays (getItem cfg s key).1 key it exptime mark since ∨
      (∀ p, ((getItem cfg s key).1.mem p).linked = true → (getItem cfg s key).1.key p ≠ key) ∧
        Hidden exptime mark since s.currentTime := by
  unfold getItem
  rcases doItemGet_outcome hok hr with ⟨s', he, hg⟩ | ⟨s', old, he, hg⟩
  · rw [he]
    have hdead := (hg.dead it h.linked h.key).resolve_left (by simp [inRebalance, hreb])
    exact .inr ⟨hg.absent, (h.dead_iff hm).mp hdead⟩
  · rw [he]
    have holdl : (s.mem old).linked = true := (hg.linked old).symm.trans hg.stored
    obtain rfl : old = it :=
      hok.key_inj holdl h.linked ((hg.untouched old).sameKey.symm.trans (hg.key.trans h.key.symm))
    have hlive : ¬Hidden exptime mark since s.currentTime := by
      rw [← h.dead_iff hm, hg.live]
      simp
    have hnow : s'.currentTime = s.currentTime := congrArg (·.1) hg.env
    obtain ⟨t, hb, hl, _, ht⟩ := update_mem s' old old
    have hbody : ((doItemUpdate s' old).mem old).body = { (s.mem old).body with time := t } := by
      rw [hb, hg.body]
    have htime : ((doItemUpdate s' old).mem old).time = t := by
      change ((doItemUpdate s' old).mem old).body.time = t
      rw [hbody]
    have hnew : t = (s.mem old).time ∨ t = s.currentTime :=
      ht.imp (fun ht => ht.trans (time_of_body (hg.body old))) fun ht => ht.2.trans hnow
    refine .inl ⟨hl.trans hg.stored, ?_, ?_, fun h0 hlt => ?_, fun h0 hle => ?_⟩
    · refine Eq.trans ?_ h.key
      change itemKey ((doItemUpdate s' old).mem old).body = itemKey (s.mem old).body
      rw [hbody]
      rfl
    · rw [← h.exptime]
      change ((doItemUpdate s' old).mem old).body.exptime = _
      rw [hbody]
      rfl
    · rw [htime]
      rcases hnew with rfl | rfl
      · exact h.newer h0 hlt
      · exact UInt32.lt_of_lt_of_le hlt hsince
    · rw [htime]
      rcases hnew with rfl | rfl
      · exact h.older h0 hle
      · -- the mark has not come yet, for the item is alive
        refine UInt32.le_of_lt (UInt32.not_le.mp fun hcome => hlive (.inr ⟨h0, hle, hcome⟩))

theorem AfterCommand.step {op : ClientOp} (h : AfterCommand cfg key it exptime mark since s)
    (hs : LaterStep cfg processStarted key it s op s') : AfterCommand cfg key it exptime mark since s' := by
  obtain ⟨⟨hq, hstep⟩, hop, hspared⟩ := hs
  obtain ⟨hinv, hclock⟩ := hstep.keeps_inv h.inv hq
  have hflush : ∀ exptime, op ≠ .flushAll exptime := by
    rintro exptime rfl
    exact hop.elim nofun fun hn => hn (.inr ⟨exptime, rfl⟩)
  have hages := hstep.ages h.inv.toFlushInv (hq.keeps hflush)
  -- nothing comes to be stored under the key
  have hback : ∀ p, (s'.store.mem p).linked = true → s'.store.key p = key →
      (s.store.mem p).linked = true ∧ s.store.key p = key := by
    intro p hl hk
    rcases hages.items p hl with hc | hw
    · exact ⟨hc.linked, (stored_field itemKey (fun _ => rfl) hc.stored).symm.trans hk⟩
    · rw [hk] at hw
      rcases hop with rfl | hn
      · exact hw.elim
      · exact absurd hw.names hn
  refine ⟨hinv, (hclock.mark hflush).trans h.oldestLive, UInt32.le_trans h.later hclock.now, ?_⟩
  rcases h.item with hstays | ⟨habsent, hhidden⟩
  · rcases hop with rfl | hn
    · cases hstep with
      | get s held key =>
        refine (hstays.read h.inv.ok h.inv.rebal h.oldestLive h.later hq).imp id fun hgone => ?_
        exact ⟨hgone.1, hgone.2.later hclock.now⟩
    · have hused : NotUsed it op := by
        cases hstep with
        | complete s held env q comm data hh hl =>
          rintro rfl
          rw [hstays.linked] at hl
          cases hl
        | _ => trivial
      rcases hstep.apart h.inv hq (.inl hstays.linked) (fun _ => hstays.key ▸ hn) hused with
        hu | ⟨halloc, key', hkey', ht⟩
      · exact .inl (hstays.untouched hu)
      · have hother : (s'.store.mem it).linked = true → s'.store.key it ≠ key := by
          intro hl hk
          exact hn (.inl (hkey'.trans (congrArg some ((ht.key hl).symm.trans hk))))
        right
        have hdead : flushedOrExpired s.store (s.store.mem it) = true := by
          by_contra hlive
          obtain ⟨hl, hk⟩ := hspared halloc hstays.linked (by simpa using hlive)
          exact hother hl hk
        refine ⟨fun p hl hk => ?_, ((hstays.dead_iff h.oldestLive).mp hdead).later hclock.now⟩
        obtain ⟨hl', hk'⟩ := hback p hl hk
        obtain rfl : p = it := h.inv.ok.key_inj hl' hstays.linked (hk'.trans hstays.key.symm)
        exact hother hl hk
  · right
    refine ⟨fun p hl hk => ?_, hhidden.later hclock.now⟩
    obtain ⟨hl', hk'⟩ := hback p hl hk
    exact habsent p hl' hk'

theorem AfterCommand.run {ops : List ClientOp} (h : AfterCommand cfg key it exptime mark since s)
    (hr : Run (LaterStep cfg processStarted key it) s ops s') :
    AfterCommand cfg key it exptime mark since s' :=
  hr.invariant (fun _ _ _ hi hs => AfterCommand.step hi hs) h

variable (cfg processStarted key it) in
/-- The time can be any later one. -/
theorem later_tick (s : ItemsState) {now : UInt32} (hle : s.store.currentTime ≤ now) :
    ∃ s', Run (LaterStep cfg processStarted key it) s [.tick now] s' ∧ s'.store.currentTime = now := by
  refine ⟨_, .single ⟨⟨trivial, .tick s.store s.held now hle⟩, .inr ?_, nofun⟩, rfl⟩
  exact fun hn => hn.elim nofun fun ⟨_, h⟩ => nomatch h

end

/-! ## The commands -/

/-- The commands that end the upload of an item. -/
def Ends (it : Ptr) : ClientOp → Prop
  | .complete _ q _ _ | .release q => q = it
  | _ => False

/-- An item that waits for its data. -/
structure Uploading (s : ItemsState) (key : Bytes) (it : Ptr) (exptime : UInt32) : Prop where
  held : 0 < s.held it
  unlinked : (s.store.mem it).linked = false
  key : s.store.key it = key
  exptime : (s.store.mem it).exptime = exptime

theorem ClientStep.held_pos {op : ClientOp} (hs : ClientStep cfg processStarted s op s') (hh : 0 < s.held it)
    (he : ¬Ends it op) : 0 < s'.held it := by
  have hgive : ∀ (held : Ptr → Nat) r, 0 < held it → 0 < giveRef held r it := by
    rintro held (_ | q) hh
    · exact hh
    · by_cases hq : it = q
      · exact hq ▸ addRef_self held it
      · exact addRef_other hh hq
  have hdrop : ∀ (held : Ptr → Nat) q, 0 < held it → q ≠ it → 0 < dropRef held q it := by
    intro held q hh hq
    rwa [dropRef, Function.update_of_ne (Ne.symm hq)]
  cases hs with
  | get | touch | update => exact hgive _ _ hh
  | shortSome s held env comm key flags exptime vlen reqCas hn hcall => exact hgive held (some _) hh
  | complete s held env q comm data | release s held q => exact hdrop _ _ hh he
  | _ => exact hh

/-- Nobody else touches an item that waits for its data. -/
theorem ClientStep.spares_held {op : ClientOp} (hs : ClientStep cfg processStarted s op s') (hinv : ClientInv cfg s)
    (hq : Unhindered cfg processStarted s op) (hh : 0 < s.held it) (hl : (s.store.mem it).linked = false)
    (he : ¬Ends it op) : 0 < s'.held it ∧ Untouched s.store s'.store it := by
  have hn : (s.store.mem it).linked ≠ true := by simp [hl]
  have hused : NotUsed it op := by
    cases op with
    | complete env q comm data => exact fun hq => he hq.symm
    | _ => trivial
  rcases hs.apart hinv hq (.inr hh) (fun hl' => absurd hl' hn) hused with hu | ⟨_, _, _, ht⟩
  · exact ⟨hs.held_pos hh he, hu⟩
  · exact absurd ht.unheld (Nat.pos_iff_ne_zero.mp hh)

theorem Uploading.step {op : ClientOp} {exptime : UInt32} (h : Uploading s key it exptime)
    (hinv : ClientInv cfg s)
    (hs : Guarded (Unhindered cfg processStarted) (ClientStep cfg processStarted) s op s') (he : ¬Ends it op) :
    Uploading s' key it exptime := by
  obtain ⟨hheld, hu⟩ := hs.2.spares_held hinv hs.1 h.held h.unlinked he
  exact ⟨hheld, hu.linked.trans h.unlinked, hu.sameKey.trans h.key, (exptime_of_body hu.body).trans h.exptime⟩

theorem Uploading.run {ops : List ClientOp} {exptime : UInt32} (h : Uploading s key it exptime)
    (hinv : ClientInv cfg s)
    (hr : Run (fun s op s' => Guarded (Unhindered cfg processStarted) (ClientStep cfg processStarted) s op s' ∧
      ¬Ends it op) s ops s') :
    Uploading s' key it exptime ∧ ClientInv cfg s' ∧ s.store.currentTime ≤ s'.store.currentTime := by
  induction hr with
  | nil => exact ⟨h, hinv, UInt32.le_refl _⟩
  | cons hs _ ih =>
    obtain ⟨hinv', hclock⟩ := hs.1.2.keeps_inv hinv hs.1.1
    obtain ⟨h', hinv'', hle⟩ := ih (h.step hinv hs.1 hs.2) hinv'
    exact ⟨h', hinv'', UInt32.le_trans hclock.now hle⟩

theorem processUpdate_uploading {s : Store} {held : Ptr → Nat} (h : StoreOk cfg s held) {env : AllocEnv}
    {comm : NRead} {flags : Int} {exptime : UInt32} {vlen : Nat} {reqCas : UInt64}
    (ha : AllocGuard cfg env s key flags vlen 0)
    (hres : (processUpdate cfg env s comm key flags exptime vlen reqCas).2 = some it) :
    Uploading ⟨(processUpdate cfg env s comm key flags exptime vlen reqCas).1,
      giveRef held (processUpdate cfg env s comm key flags exptime vlen reqCas).2⟩ key it exptime := by
  rw [hres]
  unfold processUpdate at hres ⊢
  rcases doItemAlloc_spec h ha.page key flags exptime vlen 0 ha.noRepair with
    he | ⟨s', n, id, i, he, _, _, hm⟩
  · rw [he] at hres
    dsimp only at hres
    split at hres <;> cases hres
  · rw [he] at hres ⊢
    obtain rfl : n = it := Option.some.inj hres
    have hkey := itemInit_key cfg id key flags exptime vlen i
    refine ⟨addRef_self held n, ?_, ?_, ?_⟩
    · dsimp only
      rw [modify_mem_self, itemSetCas_field (·.linked) (fun _ _ => rfl), hm]
      rfl
    · dsimp only [Store.key]
      rw [modify_mem_self, itemSetCas_field itemKey (fun _ _ => rfl), hm, hkey]
    · dsimp only
      rw [modify_mem_self, itemSetCas_field (·.exptime) (fun _ _ => rfl), hm]
      rfl

/-- A storage command that stores its own item binds the key to it. -/
theorem doStoreItem_binds {s : Store} {held : Ptr → Nat} (h : StoreOk cfg s held) (hw : ItemsWf cfg s held)
    {env : AllocEnv} {comm : NRead} (g : StoreGuard cfg env s held it comm)
    (hcomm : comm ≠ .append ∧ comm ≠ .prepend)
    (hres : (doStoreItem cfg env s it comm (cfg.hash (s.key it))).2.1 = .STORED) :
    ∃ entry, Bound (doStoreItem cfg env s it comm (cfg.hash (s.key it))).1 (s.key it) it entry ∧
      entry.exptime = (s.mem it).exptime := by
  unfold doStoreItem at hres ⊢
  rcases doItemGet_outcome h g.roomAt with ⟨s', he, hg⟩ | ⟨s', old, he, hg⟩
  · rw [he] at hres ⊢
    have hwf := (hw it (.inr g.held)).congr (stored_of_body (hg.body it))
    have hlink := bound_link hwf
    rw [show s'.key it = s.key it from key_of_body (hg.body it)] at hlink
    have hbound : ∃ entry, Bound (doItemLink cfg s' it (cfg.hash (s.key it))) (s.key it) it entry ∧
        entry.exptime = (s.mem it).exptime := ⟨_, hlink, exptime_of_body (hg.body it)⟩
    cases comm with
    | add | set => exact hbound
    | replace | append | prepend | cas => cases hres
  · rw [he] at hres ⊢
    have hwf := (hw it (.inr g.held)).congr (stored_of_body (hg.body it))
    have hreplace := (bound_replace hwf (hg.ne g.unlinked) (cfg.hash (s.key it))).remove cfg old
    rw [show s'.key it = s.key it from key_of_body (hg.body it)] at hreplace
    have hbound : ∃ entry, Bound (doItemRemove cfg (doItemReplace cfg s' old it (cfg.hash (s.key it))) old)
        (s.key it) it entry ∧ entry.exptime = (s.mem it).exptime :=
      ⟨_, hreplace, exptime_of_body (hg.body it)⟩
    cases comm with
    | set | replace => exact hbound
    | add => cases hres
    | append => exact absurd rfl hcomm.1
    | prepend => exact absurd rfl hcomm.2
    | cas =>
      dsimp only at hres ⊢
      split at hres
      · rename_i hc
        rw [if_pos hc]
        exact hbound
      · cases hres

theorem completeNread_binds {s : Store} {held : Ptr → Nat} (h : StoreOk cfg s held) (hw : ItemsWf cfg s held)
    {env : AllocEnv} {comm : NRead} {data : Bytes}
    (g : StoreGuard cfg env (s.modify it (writeData 0 data)) held it comm)
    (hcomm : comm ≠ .append ∧ comm ≠ .prepend)
    (hres : (completeNread cfg env s it comm data).2.1 = .STORED) :
    ∃ entry, Bound (completeNread cfg env s it comm data).1 (s.key it) it entry ∧
      entry.exptime = (s.mem it).exptime := by
  have hwb := writeData_bytes 0 data (s.mem it)
  have hl : (s.mem it).linked = false := by
    have hu := g.unlinked
    rwa [modify_field (·.linked) rfl] at hu
  obtain ⟨op, hq⟩ : ∃ op, QuietStep cfg (fun _ _ => True) ⟨s, held⟩ op _ := write_step g.held hl hwb
  obtain ⟨entry, hbound, hexp⟩ := doStoreItem_binds (hq.2.keeps h) (hq.2.keeps_items h hw) g hcomm hres
  have hkey : (s.modify it (writeData 0 data)).key it = s.key it := by
    obtain ⟨bytes, he, hb⟩ := hwb
    unfold Store.key
    rw [modify_mem_self, he, itemKey_write hb]
  refine ⟨entry, hkey ▸ hbound.remove cfg it, hexp.trans ?_⟩
  exact modify_field (·.exptime) rfl it

/-- A command gave the item under `key` an expiry time: the store the time was computed in,
and the state after the command. -/
inductive GivesExpiry (cfg : Settings) (processStarted : Int) (key : Bytes) (exptime : Int) :
    Bool → Store → ItemsState → Ptr → Prop where
  | stored {n : Nat} {as bs : List ClientOp} {s₀ s₁ s₂ s₃ : ItemsState} {env env' : AllocEnv} {comm : NRead}
      {flags : Int} {vlen : Nat} {reqCas : UInt64} {data : Bytes} {it : Ptr} :
      Run (Guarded (Unhindered cfg processStarted) (ClientStep cfg processStarted)) (itemsInit n) as s₀ →
      Guarded (Unhindered cfg processStarted) (ClientStep cfg processStarted) s₀ (.update env comm key flags
        (commandExptime processStarted s₀.store false exptime) vlen reqCas) s₁ →
      2 ≤ vlen →
      (processUpdate cfg env s₀.store comm key flags (commandExptime processStarted s₀.store false exptime)
        vlen reqCas).2 = some it →
      Run (fun s op s' => Guarded (Unhindered cfg processStarted) (ClientStep cfg processStarted) s op s' ∧
        ¬Ends it op) s₁ bs s₂ →
      Guarded (Unhindered cfg processStarted) (ClientStep cfg processStarted) s₂ (.complete env' it comm data) s₃ →
      comm ≠ .append ∧ comm ≠ .prepend →
      (completeNread cfg env' s₂.store it comm data).2.1 = .STORED →
      GivesExpiry cfg processStarted key exptime false s₀.store s₃ it
  | touched {n : Nat} {as : List ClientOp} {s₀ s₁ : ItemsState} {it : Ptr} :
      Run (Guarded (Unhindered cfg processStarted) (ClientStep cfg processStarted)) (itemsInit n) as s₀ →
      Guarded (Unhindered cfg processStarted) (ClientStep cfg processStarted) s₀
        (.touch key (commandExptime processStarted s₀.store true exptime)) s₁ →
      (touchItem cfg s₀.store key (commandExptime processStarted s₀.store true exptime)).2 = some it →
      GivesExpiry cfg processStarted key exptime true s₀.store s₁ it

/-- The state after the command, and the time before it. -/
structure ExpiryGiven (cfg : Settings) (key : Bytes) (it : Ptr) (exptime : UInt32) (touch : Bool) (store : Store)
    (s : ItemsState) : Prop where
  after : AfterCommand cfg key it exptime s.store.oldestLive s.store.currentTime s
  two : 2 ≤ store.currentTime
  now : store.currentTime ≤ s.store.currentTime
  touch : touch = true → s.store.currentTime = store.currentTime ∧ s.store.oldestLive ≠ s.store.currentTime

/-- A touched item is alive, so no flush mark in force is newer than it. -/
theorem touchItem_stays {s : Store} {held : Ptr → Nat} {exptime : UInt32} (h : StoreOk cfg s held)
    (ho : OrderOk s) (htwo : 2 ≤ s.currentTime) (hr : RoomAt cfg s key) (hres : (touchItem cfg s key exptime).2 = some it) :
    Stays (touchItem cfg s key exptime).1 key it exptime s.oldestLive s.currentTime ∧
      s.oldestLive ≠ s.currentTime := by
  unfold touchItem doItemTouch at hres ⊢
  rcases doItemGet_outcome h hr with ⟨s', he, hg⟩ | ⟨s', old, he, hg⟩
  · rw [he] at hres
    cases hres
  · rw [he] at hres ⊢
    obtain rfl : old = it := Option.some.inj hres
    have hpast := ho.past old ((hg.linked old).symm.trans hg.stored)
    have hnow : s'.currentTime = s.currentTime := congrArg (·.1) hg.env
    have hlive : s.oldestLive ≠ 0 → s.oldestLive ≤ s.currentTime → s.oldestLive < (s.mem old).time := by
      intro h0 hle
      have hl := hg.live
      simp only [flushedOrExpired, Bool.or_eq_false_iff, bne_iff_ne.mpr h0, hle, decide_true, Bool.true_and,
        decide_eq_false_iff_not] at hl
      exact UInt32.not_le.mp hl.1
    obtain ⟨t, hb, hl, _, ht⟩ := update_mem (s'.modify old fun i => { i with exptime := exptime }) old old
    have hbody : ((doItemUpdate (s'.modify old fun i => { i with exptime := exptime }) old).mem old).body =
        { { (s.mem old).body with exptime := exptime } with time := t } := by
      rw [hb, modify_mem_self, ← hg.body]
      rfl
    have htime : ((doItemUpdate (s'.modify old fun i => { i with exptime := exptime }) old).mem old).time = t := by
      change ((doItemUpdate _ old).mem old).body.time = t
      rw [hbody]
    have hnew : t = (s.mem old).time ∨ t = s.currentTime := by
      refine ht.imp (fun ht => ht.trans ?_) fun ht => ht.2.trans hnow
      rw [modify_mem_self]
      exact (show (s'.mem old).time = (s.mem old).time from time_of_body (hg.body old))
    refine ⟨⟨?_, ?_, ?_, fun h0 hlt => ?_, fun _ hle => ?_⟩, fun heq => ?_⟩
    · rw [hl, modify_mem_self]
      exact hg.stored
    · refine Eq.trans ?_ ((hg.untouched old).sameKey.symm.trans hg.key)
      change itemKey ((doItemUpdate _ old).mem old).body = itemKey (s.mem old).body
      rw [hbody]
      rfl
    · change ((doItemUpdate _ old).mem old).body.exptime = exptime
      rw [hbody]
    · rw [htime]
      rcases hnew with rfl | rfl
      · exact hlive h0 (UInt32.le_of_lt hlt)
      · exact hlt
    · rw [htime]
      rcases hnew with rfl | rfl
      · exact UInt32.le_trans hpast hle
      · exact hle
    · have h0 : s.oldestLive ≠ 0 := by
        intro h0
        rw [← heq, h0] at htwo
        exact absurd htwo (UInt32.not_le.mpr (by decide))
      exact absurd (UInt32.le_trans hpast (UInt32.le_of_eq heq.symm))
        (UInt32.not_le.mpr (hlive h0 (UInt32.le_of_eq heq)))

theorem GivesExpiry.given {touch : Bool} {store : Store} (h : GivesExpiry cfg processStarted key e touch store s it) :
    ExpiryGiven cfg key it (commandExptime processStarted store touch e) touch store s := by
  cases h with
  | @stored n as bs s₀ s₁ s₂ s₃ env env' comm flags vlen reqCas data it hr hup hlen hit hr' hdone hcomm hres =>
    obtain ⟨h₀, htwo⟩ := ClientStep.run_inv (clientInv_init cfg n) hr
    obtain ⟨h₁, hclock⟩ := hup.2.keeps_inv h₀ hup.1
    have hload : Uploading s₁ key it (commandExptime processStarted s₀.store false e) := by
      obtain ⟨hq, hup⟩ := hup
      cases hup with
      | update s held => exact processUpdate_uploading h₀.ok (hq.alloc ‹_›) hit
      | shortNone _ _ _ _ _ _ _ _ _ hn | shortSome _ _ _ _ _ _ _ _ _ hn => omega
    obtain ⟨hload, h₂, hlater⟩ := hload.run h₁ hr'
    obtain ⟨h₃, hclock'⟩ := hdone.2.keeps_inv h₂ hdone.1
    obtain ⟨hq, hdone⟩ := hdone
    cases hdone with
    | complete s held _ _ _ _ hh hl =>
      obtain ⟨entry, hb, hexp⟩ := completeNread_binds h₂.ok h₂.items hq hcomm hres
      have htime := hb.time
      refine ⟨⟨h₃, rfl, UInt32.le_refl _, .inl ⟨hb.linked, hb.key.trans hload.key, ?_, fun _ hlt => ?_,
        fun _ hle => ?_⟩⟩, htwo, ?_, nofun⟩
      · rw [← hload.exptime, ← hexp, ← hb.entry]
        rfl
      · rwa [htime]
      · rwa [htime]
      · exact UInt32.le_trans hclock.now (UInt32.le_trans hlater hclock'.now)
  | @touched n as s₀ s₁ it hr hstep hres =>
    obtain ⟨h₀, htwo⟩ := ClientStep.run_inv (clientInv_init cfg n) hr
    obtain ⟨h₁, _⟩ := hstep.2.keeps_inv h₀ hstep.1
    obtain ⟨hq, hstep⟩ := hstep
    cases hstep with
    | touch s held =>
      obtain ⟨hnow, hmark, _⟩ := quiet_clock h₀.ok (touchItem_run (w := fun _ _ => True) h₀.ok
        (commandExptime processStarted s true e) hq)
      obtain ⟨hstays, hne⟩ := touchItem_stays h₀.ok h₀.order htwo hq hres
      dsimp only at hnow hmark
      refine ⟨⟨h₁, rfl, UInt32.le_refl _, .inl ?_⟩, htwo, UInt32.le_of_eq hnow.symm, fun _ => ⟨hnow, ?_⟩⟩
      · rw [hnow, hmark]
        exact hstays
      · rw [hnow, hmark]
        exact hne

/-- In every state reached, an item that a set, add, replace, cas or touch has given an
expiry time, and that is only read from then on, is returned exactly as long as the
client asked if and only if the time is in the range of the clock arithmetic. -/
theorem returned_as_asked_iff {touch : Bool} {store : Store} (hstart : REALTIME_MAXDELTA < processStarted)
    (hlo : -2 ^ 31 ≤ e) (hhi : e < 2 ^ 31) (h : GivesExpiry cfg processStarted key e touch store s it) :
    (∀ ops s', Run (LaterStep cfg processStarted key it) s ops s' →
      ((getItem cfg s'.store key).2 = some it ↔
        Wanted processStarted store.currentTime.toNat e s'.store.currentTime.toNat)) ↔
    ExpiresInRange processStarted store.currentTime touch e s.store.oldestLive s.store.currentTime := by
  obtain ⟨hafter, htwo, hnow, htouch⟩ := h.given
  rw [← hidden_exact_iff hstart hlo hhi htwo hnow htouch]
  constructor
  · intro hall now hle
    obtain ⟨s', hr, rfl⟩ := later_tick cfg processStarted it key s hle
    rw [← hall _ s' hr]
    exact (hafter.run hr).returned_iff.symm
  · intro hexact ops s' hr
    have hs' := hafter.run hr
    rw [hs'.returned_iff]
    exact hexact s'.store.currentTime hs'.later

/-! ## A set and a touch -/

/-- The wall clock when the server started. -/
def upSince : Int := 3000000

@[irreducible]
def setFor (exptime : Int) : ItemsState :=
  let r := processUpdate oneClass fourChunks (storeInit 16) .set [107] 0
    (commandExptime upSince (storeInit 16) false exptime) 3 0
  ⟨r.1, giveRef (fun _ => 0) r.2⟩

@[irreducible]
def setDoneFor (exptime : Int) : ItemsState :=
  ⟨(completeNread oneClass noPage (setFor exptime).store 7096 .set [118, 13, 10]).1,
    dropRef (setFor exptime).held 7096⟩

@[irreducible]
def touchDone : ItemsState :=
  let r := touchItem oneClass (setDoneFor 0).store [107] (commandExptime upSince (setDoneFor 0).store true (-2))
  ⟨r.1, giveRef (setDoneFor 0).held r.2⟩

theorem setFor_step (exptime : Int) :
    Guarded (Unhindered oneClass upSince) (ClientStep oneClass upSince) (itemsInit 16)
      (.update fourChunks .set [107] 0 (commandExptime upSince (itemsInit 16).store false exptime) 3 0)
      (setFor exptime) := by
  unfold setFor
  refine ⟨⟨fun _ => ⟨?_, rfl⟩, nofun, fun _ _ _ => .inl rfl⟩, .update _ _ fourChunks .set [107] 0 _ 3 0 (by decide)⟩
  simp [FreshPage, fourChunks, itemsInit, storeInit]

theorem setDoneFor_step {exptime : Int} (hh : 0 < (setFor exptime).held 7096)
    (hl : ((setFor exptime).store.mem 7096).linked = false) :
    Guarded (Unhindered oneClass upSince) (ClientStep oneClass upSince) (setFor exptime)
      (.complete noPage 7096 .set [118, 13, 10]) (setDoneFor exptime) := by
  unfold setDoneFor
  refine ⟨⟨hh, ?_, .inl rfl, fun _ _ _ => .inl rfl, fun _ _ _ hm => hm.1.elim nofun nofun⟩,
    .complete _ _ noPage 7096 .set [118, 13, 10] hh hl⟩
  rw [modify_field (·.linked) rfl]
  exact hl

/-- A set for 100 seconds at second 2: it is returned up to second 101. -/
theorem returned_as_asked_set : (storeInit 16).currentTime = 2 ∧
    ∀ ops s', Run (LaterStep oneClass upSince [107] 7096) (setDoneFor 100) ops s' →
      ((getItem oneClass s'.store [107]).2 = some 7096 ↔
        Wanted upSince (storeInit 16).currentTime.toNat 100 s'.store.currentTime.toNat) := by
  have hgives : GivesExpiry oneClass upSince [107] 100 false (itemsInit 16).store (setDoneFor 100) 7096 :=
    .stored (.nil _) (setFor_step 100) (by decide) (by decide +kernel) (.nil _)
      (setDoneFor_step (by decide +kernel) (by decide +kernel)) ⟨nofun, nofun⟩ (by decide +kernel)
  refine ⟨rfl, (returned_as_asked_iff (by decide) (by decide) (by decide) hgives).mpr ?_⟩
  exact ⟨nofun, fun _ _ => by decide, .inl (by decide +kernel)⟩

/-- A touch with -2 at second 2 leaves 0 in the item, which then never expires. -/
theorem touched_immortal :
    GivesExpiry oneClass upSince [107] (-2) true (setDoneFor 0).store touchDone 7096 ∧
    (getItem oneClass touchDone.store [107]).2 = some 7096 ∧
    ¬Wanted upSince (setDoneFor 0).store.currentTime.toNat (-2) touchDone.store.currentTime.toNat := by
  refine ⟨?_, by decide +kernel, wanted_negative (by decide)⟩
  refine .touched (.cons (setFor_step 0) (.single (setDoneFor_step (by decide +kernel) (by decide +kernel)))) ?_
    (by decide +kernel)
  unfold touchDone
  exact ⟨fun _ _ _ => .inl rfl, .touch _ _ [107] _⟩

end RamCube
