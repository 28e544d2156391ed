import Mathlib.Data.List.TakeWhile
import MmoBackend.Authentication.AwaitingConnections
import MmoBackend.Library.Arrivals
import MmoBackend.Library.Exec
import MmoBackend.Library.Memory
import MmoBackend.Library.Trace

/-!
# `buffered-reader.c`: lines of a connection

The reader has a buffer of a fixed size and no count of the bytes in it: the content ends at
the first zero byte.  `br_read_line` looks for the end of the line, copies the line, moves
the rest of the buffer to its front and fills it up from the connection.

Three of its steps disagree about where things are.  What is moved is two bytes shorter than
what is left to be cleared, so two old bytes stay between the rest and the zero bytes.  The
refill starts where the rest would end if the buffer had been full, so if it was not full
there are zero bytes in front of what is read.  And the end of the content is taken for the
end of a line, while a line that is empty is taken for an empty buffer.

`Smooth` says when a call meets none of this.  `br_read_line_loses_nothing` says that
exactly the calls that are smooth keep the reader as it should be: the lines returned so
far are the first of the stream, and the rest is in the buffer and on its way.
-/

namespace MmoBackend
namespace Networking

open Arrivals Authentication Exec Memory

/-- `BufferedReader`.  The field `buf_size` is the length of `buf`. -/
structure BufferedReader where
  buf : List UInt8
  fd : Arrivals UInt8
  flags : ℕ

namespace BufferedReader

/-- `br->buf_size`. -/
def bufSize (br : BufferedReader) : ℕ := br.buf.length

end BufferedReader

open BufferedReader

/-- `br_init`. -/
def brInit (fd : Arrivals UInt8) (bufSize : ℕ) : BufferedReader := ⟨pad 0 bufSize [], fd, 0⟩

/-- `br_read`: read into the buffer, from `start` on. -/
def brRead (start : ℕ) : Exec BufferedReader ℕ := do
  let br ← Exec.get
  let got := br.fd.readLoop (br.bufSize - start - 1)
  Exec.modify fun br => { br with buf := poke start got.1 br.buf, fd := got.2 }
  pure got.1.length

/-- The loop over the bytes of the buffer.  It looks at a byte before it compares the index
with the size, so it leaves a buffer without a zero byte and without a newline. -/
def scan (buf : List UInt8) : Option ℕ := buf.findIdx? fun b => b = 0 ∨ b = 10

/-- `strncpy` of `i + 1` bytes. -/
def lineAt (i : ℕ) (buf : List UInt8) : CString := (buf.take (i + 1)).takeWhile fun b => b ≠ 0

/-- The `memmove` and the `memset` behind a line whose end is at `i`.  The two sizes must not
be negative. -/
def shiftBuf (i : ℕ) (buf : List UInt8) : List UInt8 :=
  poke (buf.length - i) (List.replicate i 0)
    (poke 0 ((buf.drop (i + 1)).take (buf.length - i - 2)) buf)

/-- `br_read_line`, for at most `fuel` rounds of its loop.  The memory for the line can always
be allocated. -/
def brReadLine : ℕ → Exec BufferedReader (Option CString)
  | 0 => Exec.stop .fuel
  | fuel + 1 => do
    let br ← Exec.get
    let i ← Exec.need (scan br.buf)
    if i = 0 then do
      let _ ← brRead 0
      brReadLine fuel
    else if i = br.bufSize ∧ br.buf[i]? ≠ some 10 then do
      Exec.modify fun br => { br with flags := 1 }
      pure none
    else do
      let start ← Exec.need (if i + 2 ≤ br.bufSize then some (br.bufSize - i - 2) else none)
      Exec.modify fun br => { br with buf := shiftBuf i br.buf }
      let _ ← brRead start
      pure (some (lineAt i br.buf))

variable {br br' : BufferedReader} {n fuel i : ℕ} {line out : CString} {P got : List UInt8}
  {fd t : Arrivals UInt8}

/-! ## One round -/

theorem length_shiftBuf {buf : List UInt8} (hi : i + 2 ≤ buf.length) :
    (shiftBuf i buf).length = buf.length := by
  have hmove : (poke 0 ((buf.drop (i + 1)).take (buf.length - i - 2)) buf).length
      = buf.length := by
    refine length_poke ?_
    rw [List.length_take, List.length_drop]
    omega
  rw [shiftBuf, length_poke, hmove]
  rw [hmove, List.length_replicate]
  omega

/-- A buffer without content is filled from its start. -/
theorem brReadLine_again (hscan : scan br.buf = some 0) :
    brReadLine (fuel + 1) br = brReadLine fuel { br with
      buf := poke 0 (br.fd.readLoop (br.bufSize - 1)).1 br.buf
      fd := (br.fd.readLoop (br.bufSize - 1)).2 } := by
  rw [brReadLine, get_bind, hscan, need_some_bind, if_pos rfl]
  rfl

theorem scan_lt {buf : List UInt8} (h : scan buf = some i) : i < buf.length :=
  (List.findIdx?_eq_some_iff_getElem.mp h).1

/-- A line is returned, and the buffer is filled up. -/
theorem brReadLine_line (hscan : scan br.buf = some i) (hi : i ≠ 0) (hsize : i + 2 ≤ br.bufSize) :
    brReadLine (fuel + 1) br = .ok (some (lineAt i br.buf), { br with
      buf := poke (br.bufSize - i - 2) (br.fd.readLoop (i + 1)).1 (shiftBuf i br.buf)
      fd := (br.fd.readLoop (i + 1)).2 }) := by
  have hlt := scan_lt hscan
  have hrest : br.bufSize - (br.bufSize - i - 2) - 1 = i + 1 := by omega
  rw [brReadLine, get_bind, hscan, need_some_bind, if_neg hi,
    if_neg (fun h => absurd h.1 (Nat.ne_of_lt hlt)), if_pos hsize, need_some_bind]
  have hbufSize : (shiftBuf i br.buf).length = br.bufSize := length_shiftBuf hsize
  show Except.ok (some (lineAt i br.buf), _) = _
  dsimp only [bufSize] at hrest hbufSize ⊢
  rw [hbufSize, hrest]

/-- What a call that returns has done in its first round. -/
theorem brReadLine_eq_ok {result : Option CString}
    (h : brReadLine (fuel + 1) br = .ok (result, br')) :
    ∃ i, scan br.buf = some i ∧ (i = 0 ∨ i ≠ 0 ∧ i + 2 ≤ br.bufSize) := by
  simp only [brReadLine, bind_eq_ok, get_eq_ok, need_eq_ok] at h
  obtain ⟨_, _, ⟨rfl, rfl⟩, i, _, ⟨hscan, rfl⟩, h⟩ := h
  refine ⟨i, hscan, ?_⟩
  rw [ite_eq_ok, ite_eq_ok] at h
  rcases h with ⟨hi, -⟩ | ⟨hi, ⟨hbig, -⟩ | ⟨-, h⟩⟩
  · exact Or.inl hi
  · exact absurd hbig.1 (Nat.ne_of_lt (scan_lt hscan))
  · simp only [bind_eq_ok, need_eq_ok, Option.ite_none_right_eq_some] at h
    obtain ⟨_, _, ⟨⟨hsize, -⟩, -⟩, -⟩ := h
    exact Or.inr ⟨hi, hsize⟩

/-- The line that a call returns, in the buffer of its last round. -/
theorem exists_lineAt (h : brReadLine fuel br = .ok (some line, br')) :
    ∃ buf i, scan buf = some i ∧ i ≠ 0 ∧ line = lineAt i buf ∧ br'.flags = br.flags := by
  induction fuel generalizing br with
  | zero => exact (stop_eq_ok.mp h).elim
  | succ fuel ih =>
    obtain ⟨i, hscan, rfl | ⟨hi, hsize⟩⟩ := brReadLine_eq_ok h
    · rw [brReadLine_again hscan] at h
      have hrest := ih h
      exact hrest
    · rw [brReadLine_line hscan hi hsize] at h
      obtain ⟨hline, rfl⟩ := Prod.mk.inj (Except.ok.inj h)
      exact ⟨br.buf, i, hscan, hi, (Option.some.inj hline).symm, rfl⟩

/-! ## Lines -/

/-- A line that fits into a buffer of `n` bytes. -/
structure IsLine (n : ℕ) (line : List UInt8) : Prop where
  ends : ∃ text, line = text ++ [10] ∧ 10 ∉ text
  nul : 0 ∉ line
  length_le : line.length + 2 ≤ n

/-- There is no zero byte in lines. -/
theorem zero_not_mem_flatten {lines : List (List UInt8)} (h : ∀ line ∈ lines, IsLine n line) :
    0 ∉ lines.flatten := by
  intro hzero
  obtain ⟨line, hline, hin⟩ := List.mem_flatten.mp hzero
  exact (h line hline).nul hin

/-- The content of the reader is `P`. -/
structure Holds (n : ℕ) (P : List UInt8) (br : BufferedReader) : Prop where
  buf_eq : br.buf = pad 0 n P
  length_lt : P.length < n
  nul : 0 ∉ P

/-- All bytes of the content are taken. -/
theorem Holds.all (h : Holds n P br) : ∀ b ∈ P, decide (b ≠ 0) = true := fun b hb => by
  simpa using fun hb0 : b = 0 => h.nul (hb0 ▸ hb)

theorem Holds.bufSize_eq (h : Holds n P br) : br.bufSize = n := by
  rw [bufSize, h.buf_eq, length_pad (Nat.le_of_lt h.length_lt)]

/-- The scan stops at the first newline, or at the end of the content. -/
theorem Holds.scan_eq (h : Holds n P br) : scan br.buf = some (P.idxOf 10) := by
  rw [h.buf_eq, scan, List.findIdx?_eq_some_iff_getElem]
  have hle : P.idxOf 10 ≤ P.length := List.idxOf_le_length
  have hlt := h.length_lt
  have hpad : (pad 0 n P).length = n := length_pad (Nat.le_of_lt hlt)
  refine ⟨by omega, ?_, fun j hj => ?_⟩
  · rw [← List.getD_eq_getElem (pad 0 n P) 0, getD_pad]
    by_cases hmem : 10 ∈ P
    · have hi := List.idxOf_lt_length_of_mem hmem
      rw [List.getD_eq_getElem P 0 hi, List.getElem_idxOf hi]
      decide
    · rw [List.idxOf_eq_length hmem, List.getD_eq_default _ _ (Nat.le_refl _)]
      decide
  · rw [← List.getD_eq_getElem (pad 0 n P) 0, getD_pad]
    have hjP : j < P.length := by omega
    have hzero := getD_ne h.nul hjP
    have hnewline : P.getD j 0 ≠ 10 := by
      rw [List.getD_eq_getElem P 0 hjP]
      simpa using List.not_of_lt_findIdx (p := (· == 10)) hj
    exact fun hstop => (of_decide_eq_true hstop).elim hzero hnewline

/-- A line is copied, or what there is of it. -/
theorem Holds.lineAt_eq (h : Holds n P br) :
    lineAt (P.idxOf 10) br.buf = P.take (P.idxOf 10 + 1) := by
  rw [lineAt, h.buf_eq, pad]
  by_cases hmem : 10 ∈ P
  · have hi := List.idxOf_lt_length_of_mem hmem
    rw [List.take_append_of_le_length hi, List.takeWhile_eq_self_iff.mpr]
    exact fun b hb => h.all b (List.mem_of_mem_take hb)
  · have hpos : 0 < n - P.length := Nat.sub_pos_of_lt h.length_lt
    rw [List.idxOf_eq_length hmem, List.take_of_length_le (Nat.le_succ _), List.take_append,
      List.take_of_length_le (Nat.le_succ _), Nat.add_sub_cancel_left, List.take_replicate,
      Nat.min_eq_left hpos, List.replicate_one, List.takeWhile_append_of_pos h.all]
    simp

/-- A read into an empty buffer. -/
theorem Holds.read (h : Holds n [] br) (fd : Arrivals UInt8) (hgot : got.length < n)
    (hnul : 0 ∉ got) :
    Holds n got { br with buf := poke 0 got br.buf, fd := fd } := by
  refine ⟨?_, hgot, hnul⟩
  have hlength : br.buf.length = n := h.bufSize_eq
  have hfits : 0 + got.length ≤ br.buf.length := by omega
  refine ext_getD (d := 0) ?_ fun j => ?_
  · rw [length_poke hfits, hlength, length_pad (Nat.le_of_lt hgot)]
  · rw [getD_poke hfits, getD_pad, h.buf_eq, getD_pad, Nat.sub_zero, Nat.zero_add]
    split
    · rfl
    · rename_i hj
      rw [List.getD_nil, List.getD_eq_default got _ (by omega)]

/-! ## The refill -/

/-- The refill behind a line agrees with the rest of the buffer: nothing has arrived and the
old bytes are zero, or the buffer was full and the old bytes are overwritten. -/
def RefillFits (n i : ℕ) (P got : List UInt8) : Prop :=
  got = [] ∧ P.length + i + 2 ≤ n ∨ 2 ≤ got.length ∧ P.length + 1 = n

/-- What is read from the buffer behind the shift and the refill. -/
theorem getD_refill (buf : List UInt8) (hi : i + 2 ≤ buf.length) (hgot : got.length ≤ i + 1)
    (j : ℕ) : (poke (buf.length - i - 2) got (shiftBuf i buf)).getD j 0
      = if buf.length - i - 2 ≤ j ∧ j < buf.length - i - 2 + got.length then
          got.getD (j - (buf.length - i - 2)) 0
        else if buf.length - i ≤ j then 0
        else if j < buf.length - i - 2 then buf.getD (i + 1 + j) 0 else buf.getD j 0 := by
  have hrest : ((buf.drop (i + 1)).take (buf.length - i - 2)).length = buf.length - i - 2 := by
    rw [List.length_take, List.length_drop]
    omega
  have hmove : (poke 0 ((buf.drop (i + 1)).take (buf.length - i - 2)) buf).length = buf.length :=
    length_poke (by omega)
  rw [getD_poke (by rw [length_shiftBuf hi]; omega)]
  split
  · rfl
  rw [shiftBuf, getD_poke (by rw [hmove, List.length_replicate]; omega), List.length_replicate]
  by_cases hclear : buf.length - i ≤ j
  · rw [if_pos hclear]
    split
    · rename_i hj
      rw [List.getD_replicate _ (by omega)]
    · rename_i hj
      exact List.getD_eq_default _ _ (by omega)
  · rw [if_neg hclear, if_neg (by omega), getD_poke (by omega), hrest]
    by_cases hj : j < buf.length - i - 2
    · rw [if_pos (by omega), if_pos hj, Nat.sub_zero, List.getD_eq_getElem?_getD,
        List.getElem?_take_of_lt hj, List.getElem?_drop, ← List.getD_eq_getElem?_getD]
    · rw [if_neg (by omega), if_neg hj]

/-- What is read from the rest of the buffer. -/
theorem getD_rest {j : ℕ} (hj : j < P.length - i - 1) :
    (P.drop (i + 1) ++ got).getD j 0 = P.getD (i + 1 + j) 0 := by
  have hdrop : j < (P.drop (i + 1)).length := by
    rw [List.length_drop]
    omega
  rw [List.getD_append _ _ _ _ hdrop, List.getD_eq_getElem?_getD, List.getElem?_drop,
    ← List.getD_eq_getElem?_getD]

/-- What is read behind the rest of the buffer. -/
theorem getD_got {j : ℕ} (hj : P.length - i - 1 ≤ j) :
    (P.drop (i + 1) ++ got).getD j 0 = got.getD (j - (P.length - i - 1)) 0 := by
  have hdrop : (P.drop (i + 1)).length = P.length - i - 1 := by
    rw [List.length_drop]
    omega
  rw [List.getD_append_right _ _ _ _ (by omega), hdrop]

/-- A refill that leaves the rest and what has been read fits. -/
theorem fits_of_refill (hlt : P.length < n) (hi : i < P.length) (hpos : i ≠ 0) (hnul : 0 ∉ P)
    (hgot : got.length ≤ i + 1) (hnul' : 0 ∉ got)
    (heq : poke (n - i - 2) got (shiftBuf i (pad 0 n P)) = pad 0 n (P.drop (i + 1) ++ got)) :
    RefillFits n i P got := by
  have hpad : (pad 0 n P).length = n := length_pad (Nat.le_of_lt hlt)
  have hread := fun j => getD_refill (i := i) (pad 0 n P) (by omega) hgot j
  simp only [hpad, getD_pad] at hread
  have hall : ∀ j, (poke (n - i - 2) got (shiftBuf i (pad 0 n P))).getD j 0
      = (P.drop (i + 1) ++ got).getD j 0 := fun j => by rw [heq, getD_pad]
  rcases Nat.eq_zero_or_pos got.length with hnone | hsome
  · -- the first of the two old bytes
    refine Or.inl ⟨List.eq_nil_of_length_eq_zero hnone, ?_⟩
    by_contra hbig
    have hat := hall (n - i - 2)
    rw [hread, if_neg (by omega), if_neg (by omega), if_neg (by omega), getD_got (by omega),
      List.getD_eq_default got _ (by omega)] at hat
    exact getD_ne hnul (show n - i - 2 < P.length by omega) hat
  · -- the byte behind the rest
    have hfull : P.length + 1 = n := by
      by_contra hgap
      have hat := hall (P.length - i - 1)
      rw [hread, if_neg (by omega), if_neg (by omega), if_pos (by omega),
        getD_got (Nat.le_refl _), Nat.sub_self, List.getD_eq_default _ _ (by omega)] at hat
      exact getD_ne hnul' hsome hat.symm
    refine Or.inr ⟨?_, hfull⟩
    -- the second of the two old bytes
    by_contra hone
    have hat := hall (n - i - 1)
    rw [hread, if_neg (by omega), if_neg (by omega), if_neg (by omega), getD_got (by omega),
      List.getD_eq_default got _ (by omega)] at hat
    exact getD_ne hnul (show n - i - 1 < P.length by omega) hat

/-- A refill that fits leaves the rest and what has been read. -/
theorem RefillFits.getD_eq (h : RefillFits n i P got) (hlt : P.length < n) (hi : i < P.length)
    (hgot : got.length ≤ i + 1) (j : ℕ) :
    (poke (n - i - 2) got (shiftBuf i (pad 0 n P))).getD j 0
      = (P.drop (i + 1) ++ got).getD j 0 := by
  have hpad : (pad 0 n P).length = n := length_pad (Nat.le_of_lt hlt)
  have hread := getD_refill (i := i) (pad 0 n P) (by omega) hgot j
  simp only [hpad, getD_pad] at hread
  rw [hread]
  rcases h with ⟨rfl, hsmall⟩ | ⟨htwo, hfull⟩
  · rw [List.length_nil, if_neg (by omega)]
    rcases Nat.lt_or_ge j (P.length - i - 1) with hj | hj
    · rw [if_neg (by omega), if_pos (by omega), getD_rest hj]
    · rw [getD_got hj, List.getD_nil]
      split
      · rfl
      · split
        · exact List.getD_eq_default _ _ (by omega)
        · exact List.getD_eq_default _ _ (by omega)
  · rcases Nat.lt_or_ge j (P.length - i - 1) with hj | hj
    · rw [if_neg (by omega), if_neg (by omega), if_pos (by omega), getD_rest hj]
    · rw [getD_got hj]
      by_cases hin : j < n - i - 2 + got.length
      · rw [if_pos (by omega)]
        congr 1
        omega
      · rw [if_neg (by omega), if_pos (by omega)]
        exact (List.getD_eq_default _ _ (by omega)).symm

/-- **The buffer behind a refill** holds the rest and what has been read in exactly two
cases. -/
theorem refill_iff (hlt : P.length < n) (hi : i < P.length) (hpos : i ≠ 0) (hnul : 0 ∉ P)
    (hgot : got.length ≤ i + 1) (hnul' : 0 ∉ got) :
    (poke (n - i - 2) got (shiftBuf i (pad 0 n P)) = pad 0 n (P.drop (i + 1) ++ got) ∧
      (P.drop (i + 1) ++ got).length < n) ↔ RefillFits n i P got := by
  refine ⟨fun h => fits_of_refill hlt hi hpos hnul hgot hnul' h.1, fun hfits => ?_⟩
  have hpad : (pad 0 n P).length = n := length_pad (Nat.le_of_lt hlt)
  have hshort : (P.drop (i + 1) ++ got).length < n := by
    rw [List.length_append, List.length_drop]
    rcases hfits with ⟨rfl, hsmall⟩ | ⟨htwo, hfull⟩
    · rw [List.length_nil]
      omega
    · omega
  have hroom : i + 2 ≤ n := by
    rcases hfits with ⟨-, hsmall⟩ | ⟨-, hfull⟩ <;> omega
  have hshift : (shiftBuf i (pad 0 n P)).length = n := by
    rw [length_shiftBuf (by omega), hpad]
  have hfitsIn : n - i - 2 + got.length ≤ (shiftBuf i (pad 0 n P)).length := by omega
  refine ⟨ext_getD (d := 0) ?_ fun j => ?_, hshort⟩
  · rw [length_poke hfitsIn, hshift, length_pad (Nat.le_of_lt hshort)]
  · rw [hfits.getD_eq hlt hi hgot, getD_pad]

/-! ## Calls -/

/-- The bytes in front of the first zero byte. -/
def content (br : BufferedReader) : List UInt8 := br.buf.takeWhile fun b => b ≠ 0

/-- What a call looks for its line in, and the connection then: the content of the buffer, or
what the first read brings that brings anything. -/
def Found (br : BufferedReader) (P : List UInt8) (fd : Arrivals UInt8) : Prop :=
  content br ≠ [] ∧ P = content br ∧ fd = br.fd ∨
    content br = [] ∧ Polls (br.bufSize - 1) br.fd P fd

/-- The whole line is there, it is not empty, and the refill behind it fits. -/
structure Fits (n : ℕ) (P : List UInt8) (fd : Arrivals UInt8) : Prop where
  newline : 10 ∈ P
  nonempty : P.idxOf 10 ≠ 0
  refill : RefillFits n (P.idxOf 10) P (fd.readLoop (P.idxOf 10 + 1)).1

/-- The next call meets none of the slips. -/
def Smooth (br : BufferedReader) : Prop := ∃ P fd, Found br P fd ∧ Fits br.bufSize P fd

/-- A reader, and the lines it has returned. -/
structure Reading where
  reader : BufferedReader
  returned : List CString

/-- A call that returns a line. -/
def ReadsLine (r : Reading) (line : CString) (r' : Reading) : Prop :=
  r'.returned = r.returned ++ [line] ∧
    ∃ fuel, brReadLine fuel r.reader = .ok (some line, r'.reader)

/-- The lines returned so far are the first of all lines, and the others are in the buffer and
on their way. -/
def LosesNothing (n : ℕ) (lines : List CString) (r : Reading) : Prop :=
  ∃ rest P, lines = r.returned ++ rest ∧ Holds n P r.reader ∧
    P ++ r.reader.fd.all = rest.flatten

variable {lines rest : List CString} {r r' : Reading}

theorem Holds.content_eq (h : Holds n P br) : content br = P := by
  rw [content, h.buf_eq, pad, List.takeWhile_append_of_pos h.all, List.takeWhile_replicate]
  simp

/-- No call returns an empty line. -/
theorem head?_ne (h : brReadLine fuel br = .ok (some line, br')) : line.head? ≠ some 10 := by
  obtain ⟨buf, i, hscan, hi, rfl, -⟩ := exists_lineAt h
  rw [lineAt, List.head?_takeWhile, List.head?_take, if_neg (Nat.succ_ne_zero i)]
  intro hhead
  obtain ⟨hhead, -⟩ := Option.filter_eq_some_iff.mp hhead
  obtain ⟨l, hl⟩ := List.head?_eq_some_iff.mp hhead
  have hfirst := (List.findIdx?_eq_some_iff_getElem.mp hscan).2.2 0 (Nat.pos_of_ne_zero hi)
  simp [hl] at hfirst

/-- One round on a buffer without content. -/
theorem Holds.again (h : Holds n [] br) (hnul : 0 ∉ br.fd.all) (fuel : ℕ) :
    Holds n (br.fd.readLoop (n - 1)).1
        ⟨pad 0 n (br.fd.readLoop (n - 1)).1, (br.fd.readLoop (n - 1)).2, br.flags⟩ ∧
      0 ∉ (br.fd.readLoop (n - 1)).2.all ∧
      brReadLine (fuel + 1) br = brReadLine fuel
        ⟨pad 0 n (br.fd.readLoop (n - 1)).1, (br.fd.readLoop (n - 1)).2, br.flags⟩ := by
  have hpos := h.length_lt
  have hlater := (later_readLoop (n - 1) br.fd).append_all
  have hlength := length_readLoop_le (n - 1) br.fd
  have hread := h.read (br.fd.readLoop (n - 1)).2 (by rw [List.length_nil] at hpos; omega)
    fun hmem => hnul (hlater ▸ List.mem_append_left _ hmem)
  have heq := hread.buf_eq
  dsimp only at heq
  rw [brReadLine_again h.scan_eq, h.bufSize_eq, heq]
  rw [heq] at hread
  exact ⟨hread, fun hmem => hnul (hlater ▸ List.mem_append_right _ hmem), rfl⟩

/-- **A call on a buffer without content** waits until something is there. -/
theorem Holds.polls (h : Holds n [] br) (hnul : 0 ∉ br.fd.all)
    (hrun : brReadLine fuel br = .ok (some line, br')) :
    ∃ got t fuel', Polls (n - 1) br.fd got t ∧ Holds n got ⟨pad 0 n got, t, br.flags⟩ ∧
      brReadLine fuel' ⟨pad 0 n got, t, br.flags⟩ = .ok (some line, br') := by
  induction fuel generalizing br with
  | zero => exact (stop_eq_ok.mp hrun).elim
  | succ fuel ih =>
    obtain ⟨hread, hnul', hround⟩ := h.again hnul fuel
    rw [hround] at hrun
    by_cases hnil : (br.fd.readLoop (n - 1)).1 = []
    · rw [hnil] at hread hrun
      obtain ⟨got, t, fuel', hpolls, hrest⟩ := ih hread hnul' hrun
      exact ⟨got, t, fuel', .again hnil hpolls, hrest⟩
    · exact ⟨_, _, fuel, .here hnil, hread, hrun⟩

/-- The same the other way round: what is waited for comes. -/
theorem Holds.of_polls (h : Holds n [] br) (hnul : 0 ∉ br.fd.all)
    (hpolls : Polls (n - 1) br.fd got t) : Holds n got ⟨pad 0 n got, t, br.flags⟩ ∧
      ∀ fuel, ∃ fuel', brReadLine fuel' br = brReadLine fuel ⟨pad 0 n got, t, br.flags⟩ := by
  generalize hfd : br.fd = s at hpolls
  induction hpolls generalizing br with
  | here hne =>
    subst hfd
    exact ⟨(h.again hnul 0).1, fun fuel => ⟨fuel + 1, (h.again hnul fuel).2.2⟩⟩
  | again hnil hpolls ih =>
    subst hfd
    obtain ⟨hread, hnul', -⟩ := h.again hnul 0
    rw [hnil] at hread
    obtain ⟨hgot, hrounds⟩ := ih hread hnul' rfl
    refine ⟨hgot, fun fuel => ?_⟩
    obtain ⟨fuel', hfuel'⟩ := hrounds fuel
    refine ⟨fuel' + 1, ?_⟩
    rw [(h.again hnul fuel').2.2, hnil, hfuel']

/-- A line that is there is returned. -/
theorem Holds.returns (h : Holds n P br) (hmem : 10 ∈ P) (hi : P.idxOf 10 ≠ 0) :
    ∃ line br', brReadLine 1 br = .ok (some line, br') := by
  have hlt := List.idxOf_lt_length_of_mem hmem
  have hsize := h.length_lt
  exact ⟨_, _, brReadLine_line h.scan_eq hi (by rw [h.bufSize_eq]; omega)⟩

/-- The first line of the rest is the one that is found. -/
theorem first_line {tail : List UInt8} (hP : 10 ∈ P) (hlines : ∀ line ∈ rest, IsLine n line)
    (h : P ++ tail = rest.flatten) : ∃ rest', rest = P.take (P.idxOf 10 + 1) :: rest' ∧
      P.drop (P.idxOf 10 + 1) ++ tail = rest'.flatten := by
  cases rest with
  | nil => exact absurd (List.append_eq_nil_iff.mp h).1 (List.ne_nil_of_mem hP)
  | cons line rest =>
    obtain ⟨text, rfl, htext⟩ := (hlines line List.mem_cons_self).ends
    have hi := List.idxOf_lt_length_of_mem hP
    have hidx := congrArg (List.idxOf 10) h
    rw [List.idxOf_append, if_pos hP, List.flatten_cons, List.append_assoc, List.idxOf_append,
      if_neg htext, List.cons_append, List.idxOf_cons_self, Nat.zero_add] at hidx
    have hlength : (text ++ [10]).length = P.idxOf 10 + 1 := by
      rw [List.length_append, List.length_singleton, hidx]
    rw [List.flatten_cons] at h
    have htake : (P ++ tail).take (P.idxOf 10 + 1) = text ++ [10] := by
      rw [h, ← hlength, List.take_left]
    have hdrop : (P ++ tail).drop (P.idxOf 10 + 1) = rest.flatten := by
      rw [h, ← hlength, List.drop_left]
    rw [List.take_append_of_le_length hi] at htake
    rw [List.drop_append_of_le_length hi] at hdrop
    exact ⟨rest, by rw [htake], hdrop⟩

/-- **A call that finds something in the buffer** loses nothing exactly if it fits. -/
theorem line_iff (h : Holds n P br) (hP : P ≠ []) (hlines : ∀ line ∈ rest, IsLine n line)
    (hall : P ++ br.fd.all = rest.flatten) (hrun : brReadLine fuel br = .ok (some line, br')) :
    (∃ rest' P', rest = line :: rest' ∧ Holds n P' br' ∧ P' ++ br'.fd.all = rest'.flatten) ↔
      Fits n P br.fd := by
  cases fuel with
  | zero => exact (stop_eq_ok.mp hrun).elim
  | succ fuel =>
  have hnul := h.nul
  obtain ⟨i, hscan, hi⟩ := brReadLine_eq_ok hrun
  obtain rfl : P.idxOf 10 = i := Option.some.inj (h.scan_eq.symm.trans hscan)
  rcases hi with hi | ⟨hi, hsize⟩
  · -- an empty line, which is never returned
    refine iff_of_false ?_ fun hfits => hfits.nonempty hi
    rintro ⟨rest', P', rfl, -⟩
    obtain ⟨b, P, rfl⟩ := List.exists_cons_of_ne_nil hP
    obtain ⟨text, rfl, -⟩ := (hlines _ List.mem_cons_self).ends
    obtain rfl : b = 10 := by
      by_contra hb
      rw [List.idxOf_cons_ne P hb] at hi
      exact Nat.succ_ne_zero _ hi
    refine head?_ne hrun ?_
    cases text with
    | nil => rfl
    | cons c text =>
      rw [List.flatten_cons] at hall
      rw [← (List.cons.inj hall).1]
      rfl
  · rw [brReadLine_line hscan hi hsize, h.lineAt_eq, h.bufSize_eq] at hrun
    obtain ⟨hline, rfl⟩ := Prod.mk.inj (Except.ok.inj hrun)
    obtain rfl := Option.some.inj hline
    by_cases hmem : 10 ∈ P
    · have hlt := List.idxOf_lt_length_of_mem hmem
      obtain ⟨rest', hrest, htail⟩ := first_line hmem hlines hall
      have hlater := (later_readLoop (P.idxOf 10 + 1) br.fd).append_all
      have hnul' : 0 ∉ (br.fd.readLoop (P.idxOf 10 + 1)).1 := by
        have hzero := zero_not_mem_flatten hlines
        rw [← hall, ← hlater] at hzero
        exact fun hin => hzero (List.mem_append_right _ (List.mem_append_left _ hin))
      have hrefill := refill_iff h.length_lt hlt hi hnul (length_readLoop_le _ br.fd) hnul'
      rw [← h.buf_eq] at hrefill
      constructor
      · rintro ⟨rest'', P', hrest'', hholds, htail'⟩
        obtain rfl := (List.cons.inj (hrest.symm.trans hrest'')).2
        rw [← htail, ← hlater, ← List.append_assoc] at htail'
        obtain rfl := List.append_cancel_right htail'
        exact ⟨hmem, hi, hrefill.mp ⟨hholds.buf_eq, hholds.length_lt⟩⟩
      · intro hfits
        obtain ⟨hbuf, hshort⟩ := hrefill.mpr hfits.refill
        refine ⟨rest', _, hrest, ⟨hbuf, hshort, ?_⟩, ?_⟩
        · rw [List.mem_append, not_or]
          exact ⟨fun hzero => hnul (List.mem_of_mem_drop hzero), hnul'⟩
        · rw [List.append_assoc, hlater, htail]
    · -- a part of a line
      refine iff_of_false ?_ fun hfits => hmem hfits.newline
      rintro ⟨rest', P', rfl, -⟩
      obtain ⟨text, htext, -⟩ := (hlines _ List.mem_cons_self).ends
      refine hmem (List.mem_of_mem_take (i := P.idxOf 10 + 1) ?_)
      rw [htext]
      exact List.mem_append_right _ List.mem_cons_self

/-- **A call loses nothing exactly if it is smooth.** -/
theorem losesNothing_step (hlines : ∀ line ∈ lines, IsLine n line) (h : LosesNothing n lines r)
    (hstep : ReadsLine r line r') : LosesNothing n lines r' ↔ Smooth r.reader := by
  obtain ⟨rest, P, hrest, hholds, hall⟩ := h
  obtain ⟨hreturned, fuel, hrun⟩ := hstep
  have hlines' : ∀ line ∈ rest, IsLine n line := fun line hline =>
    hlines line (hrest ▸ List.mem_append_right _ hline)
  have hnul : 0 ∉ P ++ r.reader.fd.all := hall ▸ zero_not_mem_flatten hlines'
  -- what it means for the state behind the call
  have hbehind : LosesNothing n lines r' ↔ ∃ rest' P', rest = line :: rest' ∧
      Holds n P' r'.reader ∧ P' ++ r'.reader.fd.all = rest'.flatten := by
    refine exists_congr fun rest' => exists_congr fun P' => and_congr_left fun _ => ?_
    rw [hrest, hreturned, List.append_assoc, List.singleton_append, List.append_cancel_left_eq]
  rw [hbehind]
  by_cases hP : P = []
  · subst hP
    obtain ⟨got, t, fuel', hpolls, hgot, hrun'⟩ := hholds.polls hnul hrun
    have hall' : got ++ t.all = rest.flatten := by rw [hpolls.later.append_all, ← hall]; rfl
    rw [line_iff hgot hpolls.ne_nil hlines' hall' hrun', Smooth, hholds.bufSize_eq]
    have hfound : Found r.reader got t := Or.inr ⟨hholds.content_eq, hholds.bufSize_eq ▸ hpolls⟩
    refine ⟨fun hfits => ⟨got, t, hfound, hfits⟩, ?_⟩
    rintro ⟨P', fd', ⟨hne, -⟩ | ⟨-, hpolls'⟩, hfits⟩
    · exact absurd hholds.content_eq hne
    · rw [hholds.bufSize_eq] at hpolls'
      obtain ⟨rfl, rfl⟩ := hpolls.inj hpolls'
      exact hfits
  · rw [line_iff hholds hP hlines' hall hrun, Smooth, hholds.bufSize_eq]
    have hcontent := hholds.content_eq
    refine ⟨fun hfits => ⟨P, r.reader.fd, Or.inl ⟨hcontent ▸ hP, hcontent.symm, rfl⟩, hfits⟩, ?_⟩
    rintro ⟨P', fd', ⟨-, rfl, rfl⟩ | ⟨hnil, -⟩, hfits⟩
    · exact hcontent ▸ hfits
    · exact absurd (hcontent.symm.trans hnil) hP

/-- **A smooth call returns.** -/
theorem readsLine_of_smooth (hlines : ∀ line ∈ lines, IsLine n line) (h : LosesNothing n lines r)
    (hsmooth : Smooth r.reader) : ∃ line r', ReadsLine r line r' := by
  obtain ⟨rest, P, hrest, hholds, hall⟩ := h
  obtain ⟨P', fd', hfound, hfits⟩ := hsmooth
  suffices hruns : ∃ fuel line br', brReadLine fuel r.reader = .ok (some line, br') by
    obtain ⟨fuel, line, br', hrun⟩ := hruns
    exact ⟨line, ⟨br', r.returned ++ [line]⟩, rfl, fuel, hrun⟩
  rcases hfound with ⟨-, rfl, rfl⟩ | ⟨hnil, hpolls⟩
  · rw [hholds.content_eq] at hfits
    exact ⟨1, hholds.returns hfits.newline hfits.nonempty⟩
  · rw [hholds.content_eq] at hnil
    subst hnil
    have hnul : 0 ∉ r.reader.fd.all := by
      rw [← List.nil_append r.reader.fd.all, hall]
      exact zero_not_mem_flatten fun line hline =>
        hlines line (hrest ▸ List.mem_append_right _ hline)
    rw [hholds.bufSize_eq] at hpolls
    obtain ⟨hgot, hrounds⟩ := hholds.of_polls hnul hpolls
    obtain ⟨line, br', hrun⟩ := hgot.returns hfits.newline hfits.nonempty
    obtain ⟨fuel, hfuel⟩ := hrounds 1
    exact ⟨fuel, line, br', hfuel.trans hrun⟩

/-- A reader without a buffer returns nothing. -/
theorem bufSize_pos (h : ReadsLine r line r') : 0 < r.reader.bufSize := by
  obtain ⟨-, fuel, hrun⟩ := h
  cases fuel with
  | zero => exact (stop_eq_ok.mp hrun).elim
  | succ fuel =>
    obtain ⟨i, hscan, -⟩ := brReadLine_eq_ok hrun
    exact Nat.zero_lt_of_lt (scan_lt hscan)

/-- **The line reader.**  After any number of calls on a fresh reader, whatever the segments
are in which the lines arrive and whenever they do: in every state so far nothing has been
lost, if and only if every call was smooth.  And if nothing has been lost and the next call
is smooth, it returns. -/
theorem br_read_line_loses_nothing {s : Arrivals UInt8} {l : List (CString × Reading)}
    (hlines : ∀ line ∈ lines, IsLine n line) (hs : s.all = lines.flatten)
    (h : Trace ReadsLine ⟨brInit s n, []⟩ l r) :
    ((∀ e ∈ l, LosesNothing n lines e.2) ↔
      Trace (Guarded ReadsLine fun r _ => Smooth r.reader) ⟨brInit s n, []⟩ l r) ∧
    (LosesNothing n lines r → Smooth r.reader → ∃ line r', ReadsLine r line r') := by
  refine ⟨?_, fun hr hsmooth => readsLine_of_smooth hlines hr hsmooth⟩
  rcases Nat.eq_zero_or_pos n with rfl | hn
  · -- no call returns
    cases h with
    | nil => exact iff_of_true (fun e he => absurd he List.not_mem_nil) .nil
    | @snoc l t u i hrun hlast =>
      have hempty := Trace.invariant (I := fun r => r.reader.bufSize = 0) (fun r _ _ hr hstep =>
        absurd (bufSize_pos hstep) (hr ▸ Nat.lt_irrefl 0)) rfl hrun
      exact absurd (bufSize_pos hlast) (hempty ▸ Nat.lt_irrefl 0)
  · have hstart : LosesNothing n lines ⟨brInit s n, []⟩ :=
      ⟨lines, [], rfl, ⟨rfl, hn, List.not_mem_nil⟩, hs⟩
    exact Trace.forall_iff_guarded (I := fun _ => True) (fun _ _ _ _ _ => trivial)
      (fun _ _ _ _ ht hstep => losesNothing_step hlines ht hstep) trivial hstart h

/-! ## Runs of a small reader -/

/-- A connection on which one segment arrives before every second `read`, so that each run of
the read loop takes one. -/
def oneByOne (segments : List CString) : Arrivals UInt8 :=
  ⟨[], segments, segments.flatMap fun _ => [1, 0]⟩

theorem readLoop_oneByOne {seg : CString} {segments : List CString} (hne : seg ≠ [])
    (hle : seg.length ≤ n) :
    (oneByOne (seg :: segments)).readLoop n = (seg, oneByOne segments) := by
  refine readLoop_of_read (t := ⟨[], segments, 0 :: segments.flatMap fun _ => [1, 0]⟩) ?_ hne ?_
  · simp [oneByOne, Arrivals.read, tick, List.take_of_length_le hle, hle]
  · simp [oneByOne, Arrivals.read, tick]

theorem readLoop_oneByOne_nil : (oneByOne []).readLoop n = ([], oneByOne []) := by
  rw [readLoop_of_quiet n rfl]
  simp [oneByOne]

/-- The buffer behind a call that has put `got` into it, has found the end of the line at `i`
and has been refilled with `more`. -/
def behind (i : ℕ) (got more : CString) (buf : List UInt8) : List UInt8 :=
  poke (buf.length - i - 2) more (shiftBuf i (poke 0 got buf))

/-- A call on an empty buffer, the first read of which brings something. -/
theorem readsLine_of_read (r : Reading) (got more : CString) (i : ℕ) {t' : Arrivals UInt8}
    (hread : r.reader.fd.readLoop (r.reader.bufSize - 1) = (got, t))
    (hrefill : t.readLoop (i + 1) = (more, t')) (hempty : scan r.reader.buf = some 0)
    (hfits : 0 + got.length ≤ r.reader.buf.length) (hscan : scan (poke 0 got r.reader.buf) = some i)
    (hi : i ≠ 0) (hsize : i + 2 ≤ r.reader.buf.length) :
    ReadsLine r (lineAt i (poke 0 got r.reader.buf))
      ⟨⟨behind i got more r.reader.buf, t', r.reader.flags⟩,
        r.returned ++ [lineAt i (poke 0 got r.reader.buf)]⟩ := by
  have hlength := length_poke hfits
  refine ⟨rfl, 2, ?_⟩
  rw [brReadLine_again hempty, hread, brReadLine_line hscan hi (by dsimp only [bufSize]; omega),
    hrefill]
  dsimp only [bufSize]
  rw [hlength]
  rfl

def lineA : CString := [97, 49, 10]

def lineB : CString := [98, 50, 10]

def lineC : CString := [99, 51, 10]

theorem isLine_three {a b : UInt8} (h : a ≠ 0 ∧ a ≠ 10 ∧ b ≠ 0 ∧ b ≠ 10) :
    IsLine 16 [a, b, 10] where
  ends := ⟨[a, b], rfl, by simp [h.2.1.symm, h.2.2.2.symm]⟩
  nul := by simp [h.1.symm, h.2.2.1.symm]
  length_le := by simp

theorem isLine_threeLines : ∀ line ∈ [lineA, lineB, lineC], IsLine 16 line :=
  List.forall_mem_cons.mpr ⟨isLine_three (by decide), List.forall_mem_cons.mpr
    ⟨isLine_three (by decide), List.forall_mem_singleton.mpr (isLine_three (by decide))⟩⟩

/-- Two lines arrive together, and the third one when both have been read. -/
def threeLines : Arrivals UInt8 := ⟨[], [lineA ++ lineB, lineC], [1, 0, 0, 0, 1]⟩

/-- The three lines are read, and nothing is lost, so all calls are smooth. -/
theorem br_read_line_loses_nothing_threeLines :
    ∃ l r, Trace (Guarded ReadsLine fun r _ => Smooth r.reader) ⟨brInit threeLines 16, []⟩ l r ∧
      r.returned = [lineA, lineB, lineC] ∧
      ∀ e ∈ l, LosesNothing 16 [lineA, lineB, lineC] e.2 := by
  have hrun : Exec.value (do
      let a ← brReadLine 2
      let br₁ ← Exec.get
      let b ← brReadLine 2
      let br₂ ← Exec.get
      let c ← brReadLine 2
      let br₃ ← Exec.get
      pure (decide ((a = some lineA ∧ b = some lineB ∧ c = some lineC) ∧
        (br₁.buf = pad 0 16 lineB ∧ br₁.fd.all = lineC) ∧
        (br₂.buf = pad 0 16 [] ∧ br₂.fd.all = lineC) ∧ br₃.buf = pad 0 16 [] ∧ br₃.fd.all = [])))
      (brInit threeLines 16) = some true := by
    decide +kernel
  obtain ⟨_, hrun⟩ := Exec.value_eq_some.mp hrun
  simp only [Exec.bind_eq_ok, Exec.get_eq_ok, Exec.pure_eq_ok, decide_eq_true_iff] at hrun
  obtain ⟨_, br₁, hfirst, _, _, ⟨rfl, rfl⟩, _, br₂, hsecond, _, _, ⟨rfl, rfl⟩, _, br₃, hthird, _, _,
    ⟨rfl, rfl⟩, ⟨⟨rfl, rfl, rfl⟩, ⟨hbuf₁, hall₁⟩, ⟨hbuf₂, hall₂⟩, hbuf₃, hall₃⟩, -⟩ := hrun
  have htrace : Trace ReadsLine ⟨brInit threeLines 16, []⟩ [(lineA, ⟨br₁, [lineA]⟩),
      (lineB, ⟨br₂, [lineA, lineB]⟩), (lineC, ⟨br₃, [lineA, lineB, lineC]⟩)]
      ⟨br₃, [lineA, lineB, lineC]⟩ :=
    ((Trace.nil.snoc ⟨rfl, 2, hfirst⟩).snoc ⟨rfl, 2, hsecond⟩).snoc ⟨rfl, 2, hthird⟩
  have hnothing : ∀ e ∈ [(lineA, (⟨br₁, [lineA]⟩ : Reading)), (lineB, ⟨br₂, [lineA, lineB]⟩),
      (lineC, ⟨br₃, [lineA, lineB, lineC]⟩)], LosesNothing 16 [lineA, lineB, lineC] e.2 := by
    refine List.forall_mem_cons.mpr ⟨?_, List.forall_mem_cons.mpr ⟨?_,
      List.forall_mem_singleton.mpr ?_⟩⟩
    · exact ⟨[lineB, lineC], lineB, rfl, ⟨hbuf₁, by decide, by decide⟩, by rw [hall₁]; rfl⟩
    · exact ⟨[lineC], [], rfl, ⟨hbuf₂, by decide, by decide⟩, by rw [hall₂]; rfl⟩
    · exact ⟨[], [], rfl, ⟨hbuf₃, by decide, by decide⟩, by rw [hall₃]; rfl⟩
  exact ⟨_, _, (br_read_line_loses_nothing isLine_threeLines rfl htrace).1.mp hnothing, rfl,
    hnothing⟩

/-- The second of three lines arrives behind the first call.  It is put behind zero bytes,
where the next call does not find it, and that call returns the third line. -/
theorem br_read_line_skips :
    (∀ line ∈ [lineA, lineB, lineC], IsLine 16 line) ∧
    ∃ s : Arrivals UInt8, s.all = [lineA, lineB, lineC].flatten ∧
      ∃ l r, Trace ReadsLine ⟨brInit s 16, []⟩ l r ∧ r.returned = [lineA, lineC] := by
  refine ⟨isLine_threeLines, ?_⟩
  have hfirst := readsLine_of_read ⟨brInit (oneByOne [lineA, lineB, lineC]) 16, []⟩ lineA lineB 2
    (readLoop_oneByOne (by decide) (by decide)) (readLoop_oneByOne (by decide) (by decide))
    (by decide) (by decide) (by decide) (by decide) (by decide)
  have hsecond := readsLine_of_read
    ⟨⟨behind 2 lineA lineB (pad 0 16 []), oneByOne [lineC], 0⟩, [lineA]⟩ lineC [] 2
    (readLoop_oneByOne (by decide) (by decide)) readLoop_oneByOne_nil
    (by decide) (by decide) (by decide) (by decide) (by decide)
  exact ⟨oneByOne [lineA, lineB, lineC], rfl, _, _, (Trace.snoc .nil hfirst).snoc hsecond, rfl⟩

end Networking
end MmoBackend
