import MmoBackend.Communication.PacketRead

/-!
# What a frame takes from uninitialised memory

`ws_read_frame` keeps the frame it is reading in a struct on its stack, which it does not
clear.  Two calls on the same stream that find different bytes there should return the
same frame.

Three things of the struct reach the result.  The extended length is read over the old
content, and so is the mask key; a read that comes up short leaves a part of it.  And the
key is applied to the body of every frame, also when the frame has none: `ws_apply_key` is
called outside the test of the mask bit.  A frame without a mask that has a body is
therefore never the same twice.
-/

namespace MmoBackend
namespace Communication

open Bytes Networking

/-! ## Two calls -/

/-- Two frames with the same header fields and the same body.  The key is a field of the
frames that are masked. -/
structure SameFrame (frame frame' : WSFrame) : Prop where
  fin : frame.fin = frame'.fin
  rsv1 : frame.rsv1 = frame'.rsv1
  rsv2 : frame.rsv2 = frame'.rsv2
  rsv3 : frame.rsv3 = frame'.rsv3
  opcode : frame.opcode = frame'.opcode
  mask : frame.mask = frame'.mask
  length : frame.length = frame'.length
  size : wsLength frame = wsLength frame'
  key : frame.mask = 1 → frame.key = frame'.key
  data : frame.data = frame'.data

/-- Both calls return null, or both return a frame and the frames are the same. -/
inductive SameResult : Except Stop (Option WSFrame × Arrivals UInt8) →
    Except Stop (Option WSFrame × Arrivals UInt8) → Prop
  | null {t t' : Arrivals UInt8} : SameResult (.ok (none, t)) (.ok (none, t'))
  | frame {frame frame' : WSFrame} {t t' : Arrivals UInt8} :
      SameFrame frame frame' → SameResult (.ok (some frame, t)) (.ok (some frame', t'))

/-- What `ws_read_frame` returns does not depend on what its struct contains before. -/
def IgnoresMemory (s : Arrivals UInt8) : Prop :=
  ∀ g g' : Garbage, g.body = g'.body → SameResult (wsReadFrame g s) (wsReadFrame g' s)

/-! ## Memory that is read over -/

section ReadOver

variable {s : Arrivals UInt8} {old old' : List UInt8} {n m : ℕ}

theorem take_readOver (h : n ≤ (s.readLoop old.length).1.length) :
    (readOver old s).take n = (s.readLoop old.length).1.take n :=
  List.take_append_of_le_length h

/-- Behind what was read the memory keeps what it held. -/
theorem getElem?_readOver (h : (s.readLoop old.length).1.length ≤ n) :
    (readOver old s)[n]? = old[n]? := by
  rw [readOver, List.getElem?_append_right h, List.getElem?_drop, Nat.add_sub_cancel' h]

/-- **The front of the memory is settled** when it has been read completely, and only
then. -/
theorem readOver_settled_iff (hn : n ≤ m) :
    (∀ old old' : List UInt8, old.length = m → old'.length = m →
      (readOver old s).take n = (readOver old' s).take n) ↔ n ≤ (s.readLoop m).1.length := by
  constructor
  · intro h
    by_contra hlt
    -- the first byte that did not arrive
    have hfirst := congrArg (fun l => l[(s.readLoop m).1.length]?)
      (h (List.replicate m 0) (List.replicate m 1) List.length_replicate List.length_replicate)
    have hold : ∀ b : UInt8, ((readOver (List.replicate m b) s).take n)[(s.readLoop m).1.length]?
        = some b := by
      intro b
      have hle : (s.readLoop (List.replicate m b).length).1.length ≤ (s.readLoop m).1.length := by
        rw [List.length_replicate]
      rw [List.getElem?_take_of_lt (not_le.mp hlt), getElem?_readOver hle,
        List.getElem?_replicate, if_pos (by omega)]
    simp [hold] at hfirst
  · rintro h old old' rfl hlen
    rw [take_readOver h, take_readOver (by rwa [hlen]), hlen]

end ReadOver

/-! ## What has arrived -/

/-- The 7-bit length. -/
def length7At (s : Arrivals UInt8) : ℕ := ((readOver [0, 0] s).getD 1 0).toNat % 128

/-- The bytes of the extended length that count have arrived.  Of the eight of the long
form those are the first four. -/
def SizeArrived (s : Arrivals UInt8) : Prop :=
  (length7At s = 126 → 2 ≤ ((s.readLoop 2).2.readLoop 2).1.length) ∧
    (length7At s = 127 → 4 ≤ ((s.readLoop 2).2.readLoop 8).1.length)

/-- The mask bit is set. -/
def Masked (s : Arrivals UInt8) : Prop := 128 ≤ ((readOver [0, 0] s).getD 1 0).toNat

/-- The mask key has arrived. -/
def KeyArrived (s : Arrivals UInt8) : Prop := 4 ≤ ((bodyStart s).readLoop 4).1.length

/-- Neither the opcode nor the size is a reason to refuse the frame. -/
def Accepted (g : Garbage) (s : Arrivals UInt8) : Prop :=
  (announcement g s).Known ∧ (announcement g s).Within

/-- The number that `w` bytes of the union show is settled when the `n` bytes that count have
arrived. -/
theorem beNat_settled_iff {s : Arrivals UInt8} {w n : ℕ} (hn : n ≤ w) (hw : 256 ^ w ≤ 2 ^ 64) :
    (∀ g g' : Garbage, beNat ((readOver (leBytes w g.lengthExt.toNat) s).take n)
      = beNat ((readOver (leBytes w g'.lengthExt.toNat) s).take n)) ↔
      n ≤ (s.readLoop w).1.length := by
  have hlen : ∀ g : Garbage, ((readOver (leBytes w g.lengthExt.toNat) s).take n).length = n :=
    fun g => by
      rw [List.length_take, length_readOver, length_leBytes, Nat.min_eq_left hn]
  rw [← readOver_settled_iff hn]
  constructor
  · -- every content of the memory is the content of some union
    intro h old old' hold hold'
    obtain ⟨ext, rfl⟩ := exists_leBytes_toNat hw hold
    obtain ⟨ext', rfl⟩ := exists_leBytes_toNat hw hold'
    have hsame := h ⟨0, ext, fun _ => 0⟩ ⟨0, ext', fun _ => 0⟩
    rwa [beNat_inj ((hlen _).trans (hlen _).symm)] at hsame
  · intro h g g'
    exact congrArg beNat (h _ _ (length_leBytes w _) (length_leBytes w _))

/-- **The size is settled** when it has arrived, and only then. -/
theorem size_settled_iff (s : Arrivals UInt8) :
    (∀ g g' : Garbage, (announcement g s).size = (announcement g' s).size) ↔ SizeArrived s := by
  have hsize : ∀ g : Garbage, (announcement g s).size = if length7At s = 126 then
      beNat (readOver (leBytes 2 g.lengthExt.toNat) (s.readLoop 2).2)
    else if length7At s = 127 then
      beNat ((readOver (leBytes 8 g.lengthExt.toNat) (s.readLoop 2).2).take 4)
    else length7At s := fun _ => rfl
  unfold SizeArrived
  by_cases h126 : length7At s = 126
  · have hall : ∀ g : Garbage, (readOver (leBytes 2 g.lengthExt.toNat) (s.readLoop 2).2).take 2
        = readOver (leBytes 2 g.lengthExt.toNat) (s.readLoop 2).2 := fun g => by
      rw [List.take_of_length_le]
      rw [length_readOver, length_leBytes]
    have h := beNat_settled_iff (s := (s.readLoop 2).2) (le_refl 2) (by norm_num)
    simp only [hall] at h
    simp only [hsize, if_pos h126]
    rw [h]
    exact ⟨fun h => ⟨fun _ => h, fun h127 => by omega⟩, fun h => h.1 h126⟩
  by_cases h127 : length7At s = 127
  · have h := beNat_settled_iff (s := (s.readLoop 2).2) (show 4 ≤ 8 by decide) (by norm_num)
    simp only [hsize, if_neg h126, if_pos h127]
    rw [h]
    exact ⟨fun h => ⟨fun h126' => absurd h126' h126, fun _ => h⟩, fun h => h.2 h127⟩
  · simp only [hsize, if_neg h126, if_neg h127]
    exact ⟨fun _ => ⟨fun h => absurd h h126, fun h => absurd h h127⟩, fun _ _ _ => trivial⟩

/-! ## The frame that is returned -/

/-- The frame of a call that returns one.  `ext` is what the union holds in the end. -/
def frameAt (g : Garbage) (s : Arrivals UInt8) (ext : BitVec 64) : WSFrame :=
  { headerAt g s with
    lengthExt := ext
    key := hostKey (keyBytes g (headerAt g s) (bodyStart s))
    data := if (announcement g s).size = 0 then none
      else some (wsApplyKey (hostKey (keyBytes g (headerAt g s) (bodyStart s)))
        (bodyBytes g (headerAt g s) (announcement g s).size (bodyStart s))) }

theorem mask_headerAt_iff (g : Garbage) (s : Arrivals UInt8) :
    (headerAt g s).mask = 1 ↔ Masked s := by
  obtain ⟨b, b', hheader, hword⟩ := toNat_header s
  have hb' : b'.toNat < 256 := b'.toNat_lt
  have hone : (1 : BitVec 1).toNat = 1 := rfl
  have hsecond : ([b, b'].getD 1 0).toNat = b'.toNat := rfl
  rw [Masked, headerAt, headerFields, ← BitVec.toNat_inj, setWidth_one_shiftRight, hword, hone,
    hheader, hsecond]
  omega

theorem keyBytes_of_masked (g : Garbage) {s : Arrivals UInt8} (h : Masked s) :
    keyBytes g (headerAt g s) (bodyStart s) = readOver (leBytes 4 g.key.toNat) (bodyStart s) :=
  if_pos ((mask_headerAt_iff g s).mpr h)

theorem keyBytes_of_not_masked (g : Garbage) {s : Arrivals UInt8} (h : ¬Masked s) :
    keyBytes g (headerAt g s) (bodyStart s) = leBytes 4 g.key.toNat :=
  if_neg fun hmask => h ((mask_headerAt_iff g s).mp hmask)

/-- A frame that is accepted is returned. -/
theorem Accepted.reads {g : Garbage} {s : Arrivals UInt8} (h : Accepted g s)
    (halloc : (announcement g s).Allocates) :
    ∃ ext t, wsReadFrame g s = .ok (some (frameAt g s ext), t) ∧
      wsLength (frameAt g s ext) = (announcement g s).size := by
  have hopcode : (headerAt g s).opcode.toNat = (announcement g s).opcode :=
    (headerFields_readOver g s).1
  have hgood : ¬((2 < (headerAt g s).opcode.toNat ∧ (headerAt g s).opcode.toNat < 8) ∨
      10 < (headerAt g s).opcode.toNat) := by
    have hknown := h.1
    unfold Announcement.Known at hknown
    omega
  rcases sizeOutcome g s with ⟨hlarge, -⟩ | ⟨-, hwithin, -⟩ | @⟨ext, -, -, -, hsize, hread⟩
  · exact absurd halloc hlarge
  · exact absurd h.2 hwithin
  · obtain ⟨t, hrest⟩ := wsReadRest_eq g { headerAt g s with lengthExt := ext }
      (announcement g s).size (bodyStart s)
    rw [if_neg hgood] at hrest
    exact ⟨ext, t, hread.trans hrest, hsize⟩

/-- One that is not is answered with null. -/
theorem wsReadFrame_of_not_accepted {g : Garbage} {s : Arrivals UInt8} (h : ¬Accepted g s)
    (halloc : (announcement g s).Allocates) : ∃ t, wsReadFrame g s = .ok (none, t) := by
  have hout := frameOutcome g s
  generalize wsReadFrame g s = result at hout
  cases hout with
  | fault hlarge => exact absurd halloc hlarge
  | @refused t => exact ⟨t, rfl⟩
  | read _ hknown hwithin => exact absurd ⟨hknown, hwithin⟩ h

/-! ## Calls that agree -/

section Agree

variable {g g' : Garbage} {s : Arrivals UInt8}

/-- Two calls that refuse the frame agree. -/
theorem sameResult_of_not_accepted (h : ¬Accepted g s) (h' : ¬Accepted g' s)
    (halloc : (announcement g s).Allocates) (halloc' : (announcement g' s).Allocates) :
    SameResult (wsReadFrame g s) (wsReadFrame g' s) := by
  obtain ⟨t, hread⟩ := wsReadFrame_of_not_accepted h halloc
  obtain ⟨t', hread'⟩ := wsReadFrame_of_not_accepted h' halloc'
  rw [hread, hread']
  exact .null

/-- A call that agrees with another one returns. -/
theorem SameResult.allocates (h : SameResult (wsReadFrame g s) (wsReadFrame g' s)) :
    (announcement g s).Allocates := by
  have hout := frameOutcome g s
  generalize wsReadFrame g s = result at h hout
  cases hout with
  | fault => cases h
  | refused halloc => exact halloc
  | read halloc => exact halloc

/-- If one of two calls that agree returns a frame, the other one returns the same. -/
theorem SameResult.sameFrame (h : SameResult (wsReadFrame g s) (wsReadFrame g' s))
    (halloc : (announcement g s).Allocates) (halloc' : (announcement g' s).Allocates)
    (hacc : Accepted g s) :
    (announcement g s).size = (announcement g' s).size ∧
      ∃ ext ext', SameFrame (frameAt g s ext) (frameAt g' s ext') := by
  obtain ⟨ext, t, hread, hsize⟩ := hacc.reads halloc
  rw [hread] at h
  by_cases hacc' : Accepted g' s
  · obtain ⟨ext', t', hread', hsize'⟩ := hacc'.reads halloc'
    rw [hread'] at h
    cases h with
    | frame hsame => exact ⟨hsize.symm.trans (hsame.size.trans hsize'), ext, ext', hsame⟩
  · obtain ⟨t', hread'⟩ := wsReadFrame_of_not_accepted hacc' halloc'
    rw [hread'] at h
    cases h

theorem hostKey_inj {l l' : List UInt8} (hl : l.length = 4) (hl' : l'.length = 4)
    (h : hostKey l = hostKey l') : l = l' := by
  rw [← List.reverse_inj, ← leBytes_hostKey hl, ← leBytes_hostKey hl', h]

/-- The first byte of an unmasked body tells the first byte of the key. -/
theorem wsApplyKey_hostKey_head {l l' body : List UInt8} (hl : l.length = 4)
    (hl' : l'.length = 4) (hbody : body ≠ [])
    (h : wsApplyKey (hostKey l) body = wsApplyKey (hostKey l') body) : l.head? = l'.head? := by
  obtain ⟨b, rest, rfl⟩ := List.exists_cons_of_ne_nil hbody
  have hhead := congrArg List.head? h
  have hbyte : ∀ k : List UInt8, k.length = 4 →
      (wsApplyKey (hostKey k) (b :: rest)).head? = some (b ^^^ k.headD 0) := by
    intro k hk
    obtain ⟨k₀, k₁, k₂, k₃, rfl⟩ := List.length_eq_four.mp hk
    rw [wsApplyKey, leBytes_hostKey hk, List.mapIdx_cons]
    rfl
  rw [hbyte l hl, hbyte l' hl', Option.some.injEq, UInt8.xor_right_inj] at hhead
  obtain ⟨a, m, rfl⟩ := List.exists_cons_of_length_pos (by omega : 0 < l.length)
  obtain ⟨a', m', rfl⟩ := List.exists_cons_of_length_pos (by omega : 0 < l'.length)
  exact congrArg some hhead

/-- **A frame without a mask that has a body** shows the first byte of the old key. -/
theorem SameResult.key_head (h : SameResult (wsReadFrame g s) (wsReadFrame g' s))
    (hbody : g.body = g'.body) (halloc : (announcement g s).Allocates)
    (halloc' : (announcement g' s).Allocates) (hacc : Accepted g s) (hmask : ¬Masked s)
    (hsize : (announcement g s).size ≠ 0) :
    (leBytes 4 g.key.toNat).head? = (leBytes 4 g'.key.toNat).head? := by
  obtain ⟨hsame, ext, ext', hframe⟩ := h.sameFrame halloc halloc' hacc
  have hbytes : bodyBytes g' (headerAt g' s) (announcement g' s).size (bodyStart s)
      = bodyBytes g (headerAt g s) (announcement g s).size (bodyStart s) := by
    rw [bodyBytes, ← hbody, ← hsame]
    rfl
  have hdata := hframe.data
  simp only [frameAt, if_neg hsize, if_neg (hsame ▸ hsize), Option.some.injEq, hbytes,
    keyBytes_of_not_masked _ hmask] at hdata
  refine wsApplyKey_hostKey_head (length_leBytes 4 _) (length_leBytes 4 _) (fun hnil => hsize ?_)
    hdata
  rw [← length_bodyBytes g (headerAt g s) (announcement g s).size (bodyStart s), hnil,
    List.length_nil]

end Agree

/-! ## When the memory does not matter -/

/-- The calls agree when everything that is used has arrived. -/
theorem ignoresMemory_of_arrived {s : Arrivals UInt8}
    (halloc : ∀ g : Garbage, (announcement g s).Allocates) (hsize : SizeArrived s)
    (hkey : Masked s → KeyArrived s)
    (hempty : ¬Masked s → ∀ g : Garbage, (announcement g s).size = 0) : IgnoresMemory s := by
  intro g g' hbody
  have hann : announcement g s = announcement g' s :=
    congrArg (Announcement.mk _ _) ((size_settled_iff s).mpr hsize g g')
  by_cases hacc : Accepted g s
  · have hacc' : Accepted g' s := by
      unfold Accepted
      rwa [← hann]
    obtain ⟨ext, t, hread, hlength⟩ := hacc.reads (halloc g)
    obtain ⟨ext', t', hread', hlength'⟩ := hacc'.reads (halloc g')
    have hkeys : Masked s → keyBytes g (headerAt g s) (bodyStart s)
        = keyBytes g' (headerAt g' s) (bodyStart s) := by
      intro hm
      have hsettled := (readOver_settled_iff (le_refl 4)).mpr (hkey hm) (leBytes 4 g.key.toNat)
        (leBytes 4 g'.key.toNat) (length_leBytes 4 _) (length_leBytes 4 _)
      rw [keyBytes_of_masked g hm, keyBytes_of_masked g' hm]
      rwa [List.take_of_length_le (by rw [length_readOver, length_leBytes]),
        List.take_of_length_le (by rw [length_readOver, length_leBytes])] at hsettled
    have hbytes : bodyBytes g (headerAt g s) (announcement g s).size (bodyStart s)
        = bodyBytes g' (headerAt g' s) (announcement g' s).size (bodyStart s) := by
      rw [bodyBytes, hbody, hann]
      rfl
    rw [hread, hread']
    refine .frame
      { fin := rfl, rsv1 := rfl, rsv2 := rfl, rsv3 := rfl, opcode := rfl, mask := rfl, length := rfl
        size := by rw [hlength, hlength', hann]
        key := fun hmask => congrArg hostKey (hkeys ((mask_headerAt_iff g s).mp hmask))
        data := ?_ }
    by_cases hm : Masked s
    · simp only [frameAt, hkeys hm]
      rw [hbytes, hann]
    · simp only [frameAt, hempty hm, if_true]
  · have hacc' : ¬Accepted g' s := by
      unfold Accepted
      rwa [← hann]
    exact sameResult_of_not_accepted hacc hacc' (halloc g) (halloc g')

/-- If some frame is returned, everything that is used has arrived. -/
theorem IgnoresMemory.arrived {s : Arrivals UInt8} (h : IgnoresMemory s)
    (halloc : ∀ g : Garbage, (announcement g s).Allocates) {g : Garbage} (hacc : Accepted g s) :
    SizeArrived s ∧ (Masked s → KeyArrived s) ∧
      (¬Masked s → ∀ g : Garbage, (announcement g s).size = 0) := by
  have hsize : ∀ g' : Garbage, (announcement g s).size = (announcement g' s).size := fun g' =>
    ((h g { g' with body := g.body } rfl).sameFrame (halloc g) (halloc g') hacc).1
  refine ⟨(size_settled_iff s).mp fun g₁ g₂ => (hsize g₁).symm.trans (hsize g₂), ?_, ?_⟩
  · intro hm
    refine (readOver_settled_iff (le_refl 4)).mp fun old old' hold hold' => congrArg _ ?_
    obtain ⟨key, rfl⟩ := exists_leBytes_toNat (k := 32) (by norm_num) hold
    obtain ⟨key', rfl⟩ := exists_leBytes_toNat (k := 32) (by norm_num) hold'
    obtain ⟨-, ext, ext', hframe⟩ := (h { g with key := key } { g with key := key' } rfl).sameFrame
      (halloc _) (halloc _) hacc
    have hkey := hframe.key ((mask_headerAt_iff g s).mpr hm)
    have hbytes := hostKey_inj (length_keyBytes _ _ _) (length_keyBytes _ _ _) hkey
    rwa [keyBytes_of_masked _ hm, keyBytes_of_masked _ hm] at hbytes
  · intro hm g'
    by_contra hne
    -- keys that differ in their first byte
    have hhead : (leBytes 4 0).head? = (leBytes 4 1).head? :=
      (h { g with key := 0 } { g with key := 1 } rfl).key_head rfl (halloc _) (halloc _) hacc hm
        fun hzero => hne ((hsize g').symm.trans hzero)
    exact absurd hhead (by decide)

/-- **When a frame depends on the bytes received alone.**  The frame must be one that can
be allocated.  If it is not refused anyhow, then its size must have arrived; a masked frame
must have its key there, and a frame without a mask must have no body. -/
theorem wsReadFrame_ignoresMemory_iff (s : Arrivals UInt8) :
    IgnoresMemory s ↔ (∀ g : Garbage, (announcement g s).Allocates) ∧
      ((∀ g : Garbage, ¬Accepted g s) ∨ SizeArrived s ∧ (Masked s → KeyArrived s) ∧
        (¬Masked s → ∀ g : Garbage, (announcement g s).size = 0)) := by
  constructor
  · intro h
    have halloc : ∀ g : Garbage, (announcement g s).Allocates := fun g => (h g g rfl).allocates
    refine ⟨halloc, or_iff_not_imp_left.mpr fun hsome => ?_⟩
    obtain ⟨g, hacc⟩ := not_forall_not.mp hsome
    exact h.arrived halloc hacc
  · rintro ⟨halloc, hrefused | ⟨hsize, hkey, hempty⟩⟩
    · intro g g' _
      exact sameResult_of_not_accepted (hrefused g) (hrefused g') (halloc g) (halloc g')
    · exact ignoresMemory_of_arrived halloc hsize hkey hempty

/-- A complete binary frame without a mask, with a body of one byte. -/
def plainByteFrame : Arrivals UInt8 := Arrivals.ofList [0x82, 0x01, 7]

/-- **It is read differently** over a struct of zero bytes and over one with another key. -/
theorem plainByteFrame_not_sameResult :
    ¬SameResult (wsReadFrame ⟨0, 0, fun _ => 0⟩ plainByteFrame)
      (wsReadFrame ⟨1, 0, fun _ => 0⟩ plainByteFrame) := by
  have hheader : readOver [0, 0] plainByteFrame = [0x82, 0x01] := by
    rw [readOver, Arrivals.readLoop_of_le (by decide)]
    rfl
  have hannounced : ∀ g, announcement g plainByteFrame = ⟨2, 1, 1⟩ := fun g => by
    simp [announcement, hheader]
  have halloc : ∀ g, (announcement g plainByteFrame).Allocates := fun g => by
    rw [hannounced]
    decide
  have hacc : Accepted ⟨0, 0, fun _ => 0⟩ plainByteFrame := by
    unfold Accepted
    rw [hannounced]
    decide
  have hmask : ¬Masked plainByteFrame := by
    rw [Masked, hheader]
    decide
  intro h
  have hhead := h.key_head rfl (halloc _) (halloc _) hacc hmask (by rw [hannounced]; decide)
  exact absurd hhead (by decide)

end Communication
end MmoBackend
