import RamCube.Server.Conn

/-! # The reads of one call of try_read_network (memcached.c)

`try_read_network` reads on as long as `read` fills the buffer, before anything is parsed.
So what the parser finds may have come in several reads. Only the sizes matter here. -/
namespace RamCube

/-- The result of `read` on a socket. -/
inductive ReadResult where
  | data (bs : Bytes)
  | eof
  | again
  | error

def READ_BUFFER_HIGHWAT : Nat := 8192

/-- `rsize` after `conn_shrink`. -/
def shrunkSize (rsize rbytes : Nat) : Nat :=
  if READ_BUFFER_HIGHWAT < rsize ∧ rbytes < DATA_BUFFER_SIZE then DATA_BUFFER_SIZE else rsize

/-- A full buffer is doubled, as long as it may still be doubled: how often it may be after
that, and `rsize`. -/
def makeRoom (n rsize rbytes : Nat) : Option (Nat × Nat) :=
  if rbytes < rsize then some (n, rsize)
  else match n with
    | 0 => none
    | n + 1 => some (n, rsize * 2)

/-- The loop of `try_read_network`: the bytes it reads, `rsize` after it and the results of
`read` that it leaves. It is `none` where the loop waits for one more result, where a result
is longer than what was asked for, and where the call ends in an error. -/
def networkCall (n rsize rbytes : Nat) : List ReadResult → Option (Bytes × Nat × List ReadResult)
  | [] => if (makeRoom n rsize rbytes).isNone then some ([], rsize, []) else none
  | res :: results =>
    match makeRoom n rsize rbytes with
    | none => some ([], rsize, res :: results)
    | some (n, rsize) =>
      match res with
      | .data bs =>
        let avail := rsize - rbytes
        if bs = [] ∨ avail < bs.length then none
        else if bs.length = avail then
          (networkCall n rsize (rbytes + bs.length) results).map fun (got, more) => (bs ++ got, more)
        else some (bs, rsize, results)
      | .again => some ([], rsize, results)
      | .eof | .error => none

/-- The bytes that the reads bring. -/
def dataOf (results : List ReadResult) : Bytes :=
  results.flatMap fun
    | .data bs => bs
    | .eof | .again | .error => []

theorem dataOf_append (as bs : List ReadResult) : dataOf (as ++ bs) = dataOf as ++ dataOf bs := List.flatMap_append

section

variable {n rsize rsize' rbytes : Nat} {results rest : List ReadResult} {got : Bytes}

theorem networkCall_nil (h : networkCall n rsize rbytes [] = some (got, rsize', rest)) : got = [] := by
  rw [networkCall, Option.ite_none_right_eq_some] at h
  exact (congrArg Prod.fst (Option.some.inj h.2)).symm

/-- What comes later does not change a call. -/
theorem networkCall_append (h : networkCall n rsize rbytes results = some (got, rsize', [])) (more : List ReadResult) :
    networkCall n rsize rbytes (results ++ more) = some (got, rsize', more) := by
  induction results generalizing n rsize rbytes got with
  | nil =>
    rw [networkCall, Option.ite_none_right_eq_some] at h
    obtain ⟨hfull, h⟩ := h
    cases h
    rw [Option.isNone_iff_eq_none] at hfull
    cases more with
    | nil => simp [networkCall, hfull]
    | cons => simp [networkCall, hfull]
  | cons res results ih =>
    rw [List.cons_append, networkCall]
    rw [networkCall] at h
    rcases hroom : makeRoom n rsize rbytes with _ | ⟨n', room⟩
    · rw [hroom] at h
      cases h
    · rw [hroom] at h
      cases res with
      | data bs =>
        dsimp only at h ⊢
        split at h
        · cases h
        · rename_i hfits
          rw [if_neg hfits]
          split at h
          · rename_i hall
            obtain ⟨⟨got', more'⟩, hcall, hend⟩ := Option.map_eq_some_iff.mp h
            cases hend
            rw [if_pos hall, ih hcall, Option.map_some]
          · rename_i hall
            cases h
            rw [if_neg hall]
            rfl
      | again =>
        cases h
        rfl
      | eof | error => cases h

/-- A call takes the first results, and what they bring. -/
theorem networkCall_takes (h : networkCall n rsize rbytes results = some (got, rsize', rest)) :
    ∃ taken, results = taken ++ rest ∧ networkCall n rsize rbytes taken = some (got, rsize', []) ∧ dataOf taken = got := by
  induction results generalizing n rsize rbytes got with
  | nil =>
    have hcall := h
    rw [networkCall, Option.ite_none_right_eq_some] at h
    obtain ⟨-, h⟩ := h
    cases h
    exact ⟨[], rfl, hcall, rfl⟩
  | cons res results ih =>
    rw [networkCall] at h
    rcases hroom : makeRoom n rsize rbytes with _ | ⟨n', room⟩
    · rw [hroom] at h
      cases h
      exact ⟨[], rfl, by rw [networkCall, hroom]; rfl, rfl⟩
    · rw [hroom] at h
      cases res with
      | data bs =>
        dsimp only at h
        split at h
        · cases h
        · rename_i hfits
          split at h
          · rename_i hall
            obtain ⟨⟨got', more'⟩, hcall, hend⟩ := Option.map_eq_some_iff.mp h
            cases hend
            obtain ⟨taken, rfl, htaken, hdata⟩ := ih hcall
            refine ⟨.data bs :: taken, rfl, ?_, congrArg (bs ++ ·) hdata⟩
            rw [networkCall, hroom]
            dsimp only
            rw [if_neg hfits, if_pos hall, htaken, Option.map_some]
          · rename_i hall
            cases h
            refine ⟨[.data got], rfl, ?_, List.append_nil got⟩
            rw [networkCall, hroom]
            dsimp only
            rw [if_neg hfits, if_neg hall]
      | again =>
        cases h
        exact ⟨[.again], rfl, by rw [networkCall, hroom], rfl⟩
      | eof | error => cases h

/-- A read that does not fill the buffer is a call. -/
theorem networkCall_short {bs : Bytes} (hne : bs ≠ []) (hlen : rbytes + bs.length < rsize) :
    networkCall n rsize rbytes (.data bs :: rest) = some (bs, rsize, rest) := by
  have hroom : makeRoom n rsize rbytes = some (n, rsize) := if_pos (by omega)
  rw [networkCall, hroom]
  dsimp only
  rw [if_neg (not_or.mpr ⟨hne, by omega⟩), if_neg (by omega)]

end

/-- Two reads, the first of which fills the buffer, are one call. -/
example : networkCall 4 4 0 [.data [1, 2, 3, 4], .data [5], .data [6]] = some ([1, 2, 3, 4, 5], 8, [.data [6]]) := rfl

end RamCube
