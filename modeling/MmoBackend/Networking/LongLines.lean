import MmoBackend.Networking.BufferedReader

/-!
# Lines that are too long for the reader

`br_read_line` has a flag for a line that does not fit into the buffer.  The loop that looks
for the end of the line is meant to run to the end of the buffer then, and the flag is raised
if it did.  It never does: `br_read` leaves the last byte alone, which has been zero since
`br_init`, so the loop stops there at the latest.  This is an index like any other to the
code behind it, which takes a full buffer for a complete line and moves `-1` bytes.

What a call does is decided by the reader in which it looks for its line: the one it was
called on, or what it has become after reads into a buffer that was taken for empty, `Looks`.
If that buffer is full the call uses memory outside of it, and otherwise it returns a line,
`brReadLine_of_looks`.  The result about all calls, `brReadLine_reports_iff`, follows.
-/

namespace MmoBackend
namespace Networking

open Arrivals Authentication Exec Memory BufferedReader

/-- The reader behind one more read into a buffer that is taken for empty. -/
def refilled (br : BufferedReader) : BufferedReader :=
  { br with
    buf := poke 0 (br.fd.readLoop (br.bufSize - 1)).1 br.buf
    fd := (br.fd.readLoop (br.bufSize - 1)).2 }

/-- The reader behind a line that ends at `i`. -/
def advanced (i : ℕ) (br : BufferedReader) : BufferedReader :=
  { br with
    buf := poke (br.bufSize - i - 2) (br.fd.readLoop (i + 1)).1 (shiftBuf i br.buf)
    fd := (br.fd.readLoop (i + 1)).2 }

/-- A call on `br` looks for its line in `v`. -/
inductive Looks : BufferedReader → BufferedReader → Prop
  | here {br : BufferedReader} : scan br.buf ≠ some 0 → Looks br br
  | again {br v : BufferedReader} : scan br.buf = some 0 → Looks (refilled br) v → Looks br v

/-- A reader between two calls, with a buffer of `n` bytes. -/
structure Intact (n : ℕ) (br : BufferedReader) : Prop where
  pos : 0 < n
  length_eq : br.buf.length = n
  last : br.buf.getD (n - 1) 0 = 0
  flags_eq : br.flags = 0

/-- There is neither a zero byte nor a newline in front of the last byte. -/
def Full (br : BufferedReader) : Prop := ∀ b ∈ br.buf.take (br.bufSize - 1), b ≠ 0 ∧ b ≠ 10

instance (br : BufferedReader) : Decidable (Full br) :=
  inferInstanceAs (Decidable (∀ b ∈ br.buf.take (br.bufSize - 1), b ≠ 0 ∧ b ≠ 10))

variable {br br' v v' : BufferedReader} {n fuel i : ℕ} {line : CString} {out : Option CString}
  {s : Arrivals UInt8}

/-! ## One call -/

/-- More rounds make no difference to a call that returns. -/
theorem brReadLine_mono {fuel' : ℕ} (h : brReadLine fuel br = .ok (out, br'))
    (hle : fuel ≤ fuel') : brReadLine fuel' br = .ok (out, br') := by
  induction fuel generalizing br fuel' with
  | zero => exact (stop_eq_ok.mp h).elim
  | succ fuel ih =>
    obtain ⟨fuel', rfl⟩ := Nat.exists_eq_succ_of_ne_zero (show fuel' ≠ 0 by omega)
    obtain ⟨i, hscan, rfl | ⟨hi, hsize⟩⟩ := brReadLine_eq_ok h
    · rw [brReadLine_again hscan] at h ⊢
      exact ih h (Nat.le_of_succ_le_succ hle)
    · rw [brReadLine_line hscan hi hsize] at h ⊢
      exact h

/-- Two calls on one reader that return, return the same. -/
theorem brReadLine_unique {fuel' : ℕ} {out' : Option CString}
    (h : brReadLine fuel br = .ok (out, br')) (h' : brReadLine fuel' br = .ok (out', v)) :
    out = out' ∧ br' = v := by
  have hleft := brReadLine_mono h (Nat.le_max_left fuel fuel')
  have hright := brReadLine_mono h' (Nat.le_max_right fuel fuel')
  exact Prod.mk.inj (Except.ok.inj (hleft.symm.trans hright))

/-- A call that returns a line leaves the flags as they are. -/
theorem flags_eq (h : brReadLine fuel br = .ok (some line, br')) : br'.flags = br.flags := by
  obtain ⟨-, -, -, -, -, hflags⟩ := exists_lineAt h
  exact hflags

/-- Calls one after the other return these lines. -/
inductive Delivers : BufferedReader → List CString → BufferedReader → Prop
  | nil {br : BufferedReader} : Delivers br [] br
  | cons {br br₁ br' : BufferedReader} {fuel : ℕ} {line : CString} {lines : List CString} :
      brReadLine fuel br = .ok (some line, br₁) → Delivers br₁ lines br' →
      Delivers br (line :: lines) br'

/-! ## The last byte -/

theorem intact_brInit (hn : 0 < n) (s : Arrivals UInt8) : Intact n (brInit s n) where
  pos := hn
  length_eq := length_pad (Nat.zero_le n)
  last := by rw [brInit, getD_pad, List.getD_nil]
  flags_eq := rfl

/-- Every byte of the buffer is what it is by its place. -/
theorem Intact.scan_eq (h : Intact n br) : ∃ i, scan br.buf = some i ∧ i + 1 ≤ n := by
  have hpos := h.pos
  have hlength := h.length_eq
  have hlast : n - 1 < br.buf.length := by omega
  have hmem : ∃ b ∈ br.buf, decide (b = 0 ∨ b = 10) = true := by
    refine ⟨br.buf[n - 1], List.getElem_mem hlast, ?_⟩
    have hzero := h.last
    rw [List.getD_eq_getElem _ _ hlast] at hzero
    simp [hzero]
  have hsome : (scan br.buf).isSome = true :=
    List.findIdx?_isSome.trans (List.any_eq_true.mpr hmem)
  obtain ⟨i, hi⟩ := Option.isSome_iff_exists.mp hsome
  exact ⟨i, hi, by have := scan_lt hi; omega⟩

theorem Intact.refill (h : Intact n br) : Intact n (refilled br) := by
  have hpos := h.pos
  have hlength := h.length_eq
  have hread := length_readLoop_le (br.bufSize - 1) br.fd
  have hfits : 0 + (br.fd.readLoop (br.bufSize - 1)).1.length ≤ br.buf.length := by
    rw [bufSize] at hread ⊢
    omega
  refine ⟨hpos, (length_poke hfits).trans hlength, ?_, h.flags_eq⟩
  show (poke 0 _ br.buf).getD (n - 1) 0 = 0
  rw [getD_poke hfits, if_neg (by rw [bufSize] at hread ⊢; omega)]
  exact h.last

theorem Intact.advance (h : Intact n br) (hi : i ≠ 0) (hsize : i + 2 ≤ n) :
    Intact n (advanced i br) := by
  have hlength := h.length_eq
  have hread := length_readLoop_le (i + 1) br.fd
  have hshift : (shiftBuf i br.buf).length = n := by rw [length_shiftBuf (by omega), hlength]
  have hfits : br.buf.length - i - 2 + (br.fd.readLoop (i + 1)).1.length
      ≤ (shiftBuf i br.buf).length := by omega
  refine ⟨h.pos, (length_poke hfits).trans hshift, ?_, h.flags_eq⟩
  show (poke (br.buf.length - i - 2) _ (shiftBuf i br.buf)).getD (n - 1) 0 = 0
  rw [getD_refill _ (by omega) hread, if_neg (by omega), if_pos (by omega)]

/-! ## Where a call looks -/

theorem Looks.intact (h : Looks br v) (hbr : Intact n br) : Intact n v := by
  induction h with
  | here => exact hbr
  | again _ _ ih => exact ih hbr.refill

theorem Looks.scan_ne (h : Looks br v) : scan v.buf ≠ some 0 := by
  induction h with
  | here hscan => exact hscan
  | again _ _ ih => exact ih

/-- A call does what it does where it looks. -/
theorem Looks.call (h : Looks br v) (fuel : ℕ) :
    ∃ fuel', brReadLine fuel' br = brReadLine fuel v := by
  induction h with
  | here => exact ⟨fuel, rfl⟩
  | again hscan _ ih =>
    obtain ⟨fuel', hfuel'⟩ := ih
    exact ⟨fuel' + 1, (brReadLine_again hscan).trans hfuel'⟩

/-- A call that does not wait forever has looked somewhere. -/
theorem exists_looks (h : brReadLine fuel br ≠ .error .fuel) :
    ∃ v fuel', Looks br v ∧ brReadLine (fuel' + 1) v = brReadLine fuel br := by
  induction fuel generalizing br with
  | zero => exact absurd rfl h
  | succ fuel ih =>
    by_cases hscan : scan br.buf = some 0
    · rw [brReadLine_again hscan] at h ⊢
      obtain ⟨v, fuel', hlooks, hrun⟩ := ih h
      exact ⟨v, fuel', .again hscan hlooks, hrun⟩
    · exact ⟨br, fuel, .here hscan, rfl⟩

/-! ## The call -/

/-- A full buffer is one in which the loop stops at the last byte. -/
theorem Intact.full_iff (h : Intact n br) (hscan : scan br.buf = some i) : Full br ↔ i + 1 = n := by
  have hlength := h.length_eq
  have hpos := h.pos
  obtain ⟨hi, hstop, hbefore⟩ := List.findIdx?_eq_some_iff_getElem.mp hscan
  rw [Full, bufSize, hlength]
  constructor
  · intro hfull
    by_contra hne
    have hmem : br.buf[i] ∈ br.buf.take (n - 1) :=
      List.mem_take_iff_getElem.mpr ⟨i, by omega, rfl⟩
    obtain ⟨hzero, hnewline⟩ := hfull _ hmem
    exact (of_decide_eq_true hstop).elim hzero hnewline
  · intro heq b hb
    obtain ⟨j, hj, rfl⟩ := List.mem_take_iff_getElem.mp hb
    have hgo := hbefore j (by omega)
    simpa [not_or] using hgo

/-- A full buffer is taken for a line, and the rest of it to be moved for a huge one. -/
theorem Intact.call_full (h : Intact n br) (hscan : scan br.buf ≠ some 0) (hfull : Full br)
    (fuel : ℕ) : brReadLine (fuel + 1) br = .error .fault := by
  obtain ⟨i, hi, hle⟩ := h.scan_eq
  have hne : i ≠ 0 := fun h0 => hscan (h0 ▸ hi)
  have hlast := (h.full_iff hi).mp hfull
  have hsize : br.bufSize = n := h.length_eq
  rw [brReadLine, get_bind, hi, need_some_bind, if_neg hne,
    if_neg (fun h => absurd h.1 (by omega)), if_neg (by omega), need_none_bind]

/-- A buffer that is not full brings a line. -/
theorem Intact.call_line (h : Intact n br) (hscan : scan br.buf ≠ some 0) (hfull : ¬Full br)
    (fuel : ℕ) : ∃ i, scan br.buf = some i ∧ i ≠ 0 ∧ i + 2 ≤ n ∧
      brReadLine (fuel + 1) br = .ok (some (lineAt i br.buf), advanced i br) := by
  obtain ⟨i, hi, hle⟩ := h.scan_eq
  have hne : i ≠ 0 := fun h0 => hscan (h0 ▸ hi)
  have hlast : i + 1 ≠ n := fun heq => hfull ((h.full_iff hi).mpr heq)
  have hsize : br.bufSize = n := h.length_eq
  exact ⟨i, hi, hne, by omega, brReadLine_line hi hne (by omega)⟩

/-- **What a call does** is decided where it looks. -/
theorem brReadLine_of_looks (h : Intact n br) (hlooks : Looks br v) :
    (Full v → ∃ fuel, brReadLine fuel br = .error .fault) ∧
      (¬Full v → ∃ i fuel, scan v.buf = some i ∧ i ≠ 0 ∧ i + 2 ≤ n ∧
        brReadLine fuel br = .ok (some (lineAt i v.buf), advanced i v)) := by
  have hv := hlooks.intact h
  obtain ⟨fuel, hfuel⟩ := hlooks.call 1
  refine ⟨fun hfull => ⟨fuel, hfuel.trans (hv.call_full hlooks.scan_ne hfull 0)⟩, fun hfull => ?_⟩
  obtain ⟨i, hi, hne, hsize, hrun⟩ := hv.call_line hlooks.scan_ne hfull 0
  exact ⟨i, fuel, hi, hne, hsize, hfuel.trans hrun⟩

/-- A call that returns has found a line. -/
theorem Intact.line_of_ok (h : Intact n br) (hrun : brReadLine fuel br = .ok (out, br')) :
    ∃ v i, Looks br v ∧ ¬Full v ∧ scan v.buf = some i ∧ i ≠ 0 ∧ i + 2 ≤ n ∧
      out = some (lineAt i v.buf) ∧ br' = advanced i v := by
  obtain ⟨v, fuel', hlooks, hv⟩ := exists_looks (by rw [hrun]; simp)
  rw [hrun] at hv
  have hintact := hlooks.intact h
  have hfull : ¬Full v := fun hfull => by
    rw [hintact.call_full hlooks.scan_ne hfull] at hv
    cases hv
  obtain ⟨i, hi, hne, hsize, hline⟩ := hintact.call_line hlooks.scan_ne hfull fuel'
  obtain ⟨hout, hbr'⟩ := Prod.mk.inj (Except.ok.inj (hline.symm.trans hv))
  exact ⟨v, i, hlooks, hfull, hi, hne, hsize, hout.symm, hbr'.symm⟩

/-- A call leaves the reader as it should be between two calls. -/
theorem Intact.call (h : Intact n br) (hrun : brReadLine fuel br = .ok (out, br')) :
    Intact n br' := by
  obtain ⟨v, i, hlooks, -, -, hne, hsize, -, rfl⟩ := h.line_of_ok hrun
  exact (hlooks.intact h).advance hne hsize

/-- There is no zero byte in a line. -/
theorem Intact.zero_notMem (h : Intact n br) (hrun : brReadLine fuel br = .ok (some line, br')) :
    0 ∉ line := by
  obtain ⟨v, i, -, -, -, -, -, hline, -⟩ := h.line_of_ok hrun
  obtain rfl := Option.some.inj hline
  intro hzero
  simpa using List.mem_takeWhile_imp hzero

/-- The calls that use memory outside of the buffer. -/
theorem Intact.fault_iff (h : Intact n br) :
    (∃ fuel, brReadLine fuel br = .error .fault) ↔ ∃ v, Looks br v ∧ Full v := by
  constructor
  · rintro ⟨fuel, hrun⟩
    obtain ⟨v, fuel', hlooks, hv⟩ := exists_looks (by rw [hrun]; simp)
    refine ⟨v, hlooks, ?_⟩
    by_contra hfull
    obtain ⟨i, -, -, -, hline⟩ := (hlooks.intact h).call_line hlooks.scan_ne hfull fuel'
    rw [hrun, hline] at hv
    cases hv
  · rintro ⟨v, hlooks, hfull⟩
    exact (brReadLine_of_looks h hlooks).1 hfull

/-! ## What is promised -/

/-- What the reader has and what is still to come. -/
def pending (br : BufferedReader) : List UInt8 := content br ++ br.fd.all

/-- The next line, newline included, does not fit into the bytes of the buffer that are read
into. -/
def OverLong (br : BufferedReader) : Prop :=
  br.bufSize - 1 ≤ (pending br).length ∧ 10 ∉ (pending br).take (br.bufSize - 1)

/-- A line that does not fit is reported. -/
def Reports (br : BufferedReader) : Prop :=
  OverLong br → ∃ fuel br', brReadLine fuel br = .ok (none, br') ∧ br'.flags ≠ 0

/-- The call uses no memory outside of the buffer: no byte is read there, and no size and no
offset is negative. -/
def StaysInside (br : BufferedReader) : Prop := ∀ fuel, brReadLine fuel br ≠ .error .fault

/-- The readers that come about by calls on a fresh one. -/
inductive Reached (n : ℕ) (s : Arrivals UInt8) : BufferedReader → Prop
  | init : Reached n s (brInit s n)
  | call {br br' : BufferedReader} {fuel : ℕ} {out : Option CString} :
      Reached n s br → brReadLine fuel br = .ok (out, br') → Reached n s br'

theorem Reached.intact (h : Reached n s br) (hn : 0 < n) : Intact n br := by
  induction h with
  | init => exact intact_brInit hn s
  | call _ hrun ih => exact ih.call hrun

/-- The flag is never raised. -/
theorem Intact.reports_iff (h : Intact n br) : Reports br ↔ ¬OverLong br := by
  refine ⟨fun hreports hlong => ?_, fun hshort hlong => absurd hlong hshort⟩
  obtain ⟨fuel, br', hrun, -⟩ := hreports hlong
  obtain ⟨v, i, -, -, -, -, -, hout, -⟩ := h.line_of_ok hrun
  cases hout

/-- **Which calls do what is promised**: whatever the bytes are and in whatever segments they
arrive, a call on a reader that is in use reports a line that does not fit and stays inside
the buffer, if and only if the next line fits and the buffer in which the call looks for it is
not full. -/
theorem brReadLine_reports_iff (hn : 0 < n) (h : Reached n s br) :
    Reports br ∧ StaysInside br ↔ ¬OverLong br ∧ ∀ v, Looks br v → ¬Full v := by
  have hintact := h.intact hn
  have hinside : StaysInside br ↔ ∀ v, Looks br v → ¬Full v := by
    rw [StaysInside, ← not_exists, hintact.fault_iff]
    simp only [not_exists, not_and]
  rw [hintact.reports_iff, hinside]

/-- The end of a request fits into eight bytes, and eight letters do not. -/
theorem brReadLine_reports_iff_short :
    (Reports (brInit (ofList [13, 10]) 8) ∧ StaysInside (brInit (ofList [13, 10]) 8)) ∧
      ¬(Reports (brInit (ofList (List.replicate 8 97)) 8) ∧
        StaysInside (brInit (ofList (List.replicate 8 97)) 8)) := by
  constructor
  · refine (brReadLine_reports_iff (by decide) .init).mpr ⟨?_, ?_⟩
    · rintro ⟨hlong, -⟩
      revert hlong
      decide
    · intro v hlooks
      have hread : (ofList [13, 10]).readLoop 7 = ([13, 10], (ofList ([] : List UInt8))) :=
        readLoop_ofList (by decide)
      cases hlooks with
      | here hscan => exact absurd rfl hscan
      | again _ hrest =>
        have hbuf : (refilled (brInit (ofList [13, 10]) 8)).buf = pad 0 8 [13, 10] := by
          show poke 0 ((ofList [13, 10]).readLoop 7).1 (pad 0 8 []) = _
          rw [hread]
          rfl
        cases hrest with
        | here hscan =>
          rw [Full, bufSize, hbuf]
          decide
        | again hscan =>
          rw [hbuf] at hscan
          exact absurd hscan (by decide)
  · intro hboth
    exact ((brReadLine_reports_iff (by decide) .init).mp hboth).1 ⟨by decide, by decide⟩

/-- A fresh reader has nothing. -/
theorem pending_brInit (hn : 0 < n) (s : Arrivals UInt8) : pending (brInit s n) = s.all := by
  have hempty : Holds n [] (brInit s n) := ⟨rfl, hn, List.not_mem_nil⟩
  rw [pending, hempty.content_eq]
  rfl

/-- A line that is too long and is there fills the buffer of a fresh reader. -/
theorem fault_of_long (hn : 1 < n) (hready : n - 1 ≤ s.ready.length)
    (hplain : ∀ b ∈ s.ready.take (n - 1), b ≠ 0 ∧ b ≠ 10) :
    ∃ fuel, brReadLine fuel (brInit s n) = .error .fault := by
  have hintact : Intact n (brInit s n) := intact_brInit (Nat.zero_lt_of_lt hn) s
  have hsize : (brInit s n).bufSize = n := hintact.length_eq
  have hread : ((brInit s n).fd.readLoop ((brInit s n).bufSize - 1)).1 = s.ready.take (n - 1) := by
    rw [hsize]
    exact readLoop_of_le hready
  have hfront : (refilled (brInit s n)).buf.take (n - 1) = s.ready.take (n - 1) := by
    rw [refilled]
    dsimp only
    rw [hread, poke, List.take_zero, List.nil_append, List.take_append_of_le_length, List.take_take,
      Nat.min_self]
    rw [List.length_take, Nat.min_eq_left hready]
  have hfull : Full (refilled (brInit s n)) := by
    rw [Full, bufSize, hintact.refill.length_eq, hfront]
    exact hplain
  have hscan : scan (refilled (brInit s n)).buf ≠ some 0 := fun hzero => by
    have hlast := (hintact.refill.full_iff hzero).mp hfull
    omega
  have hempty : Holds n [] (brInit s n) := ⟨rfl, by rw [List.length_nil]; omega, List.not_mem_nil⟩
  exact hintact.fault_iff.mpr ⟨_, .again hempty.scan_eq (.here hscan), hfull⟩

/-- A line as long as the buffer of the server is not reported, and the call that finds it
leaves the buffer. -/
theorem brReadLine_does_not_report :
    ∃ s : Arrivals UInt8, Reached 4096 s (brInit s 4096) ∧ ¬Reports (brInit s 4096) ∧
      ¬StaysInside (brInit s 4096) := by
  have hplain : ∀ {m : ℕ}, ∀ b ∈ (List.replicate 4096 (97 : UInt8)).take m, b ≠ 0 ∧ b ≠ 10 :=
    fun b hb => by
      rw [List.eq_of_mem_replicate (List.mem_of_mem_take hb)]
      decide
  have hlength : (List.replicate 4096 (97 : UInt8)).length = 4096 := List.length_replicate
  have hintact := intact_brInit (n := 4096) (by decide) (ofList (List.replicate 4096 97))
  refine ⟨ofList (List.replicate 4096 97), .init, fun hreports => ?_, fun hinside => ?_⟩
  · refine hintact.reports_iff.mp hreports ?_
    rw [OverLong, bufSize, hintact.length_eq, pending_brInit (by decide), ofList, all,
      List.flatten_nil, List.append_nil]
    exact ⟨by rw [hlength]; decide, fun hmem => (hplain _ hmem).2 rfl⟩
  · obtain ⟨fuel, hfault⟩ := fault_of_long (n := 4096) (s := ofList (List.replicate 4096 97))
      (by decide) (by rw [ofList, hlength]; decide) hplain
    exact hinside fuel hfault

end Networking
end MmoBackend
