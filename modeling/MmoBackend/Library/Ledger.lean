import MmoBackend.Library.Tally

/-!
# Reference counts that have to be large enough

Boxes are kept in a table under their keys, and items are listed in boxes.  Both are
counted: an item that points at a box stands for a reference to the box, a list that
has an item in it stands for a reference to the item, and code that is under way holds
references to boxes and items of its own.  A box is freed when its count reaches
zero, and so is an item.

The count of a box may be too large, since references get lost.  It must not be too
small.  `Balanced` is the invariant that keeps it from that: the count of a box is at
least the number of the items that point at it plus the number of references that are
held, and an item is listed only in the box it points at.  What makes it inductive is
that the counts of the items are exact.

While an item is freed, it still points at its box, but its reference to the box is
being given back.  So one item may be left out of the items that count.

There is one lemma for each change of a ledger.
-/

namespace MmoBackend

/-- A box. -/
structure Box (κ : Type) where
  key : κ
  refs : ℤ
  items : List ℕ

/-- An item, and the box it points at. -/
structure Item where
  refs : ℤ
  box : Option ℕ

/-- Boxes, items and the table of the boxes. -/
structure Ledger (κ : Type) where
  boxes : Heap (Box κ)
  items : Heap Item
  table : κ → Option ℕ

namespace Ledger

variable {κ : Type}

/-- Write a box. -/
def setBox (m : ℕ) (box : Box κ) (L : Ledger κ) : Ledger κ :=
  { L with boxes := L.boxes.set m box }

/-- Write an item. -/
def setItem (p : ℕ) (item : Item) (L : Ledger κ) : Ledger κ :=
  { L with items := L.items.set p item }

/-- Put a new box into the table. -/
def addBox [DecidableEq κ] (box : Box κ) (L : Ledger κ) : Ledger κ where
  boxes := L.boxes.alloc box
  items := L.items
  table := Function.update L.table box.key (some L.boxes.next)

/-- Free a box. -/
def dropBox (m : ℕ) (L : Ledger κ) : Ledger κ := { L with boxes := L.boxes.free m }

/-- Take a key out of the table. -/
def clear [DecidableEq κ] (k : κ) (L : Ledger κ) : Ledger κ :=
  { L with table := Function.update L.table k none }

/-- Make a new item. -/
def addItem (item : Item) (L : Ledger κ) : Ledger κ := { L with items := L.items.alloc item }

/-- Free an item. -/
def dropItem (p : ℕ) (L : Ledger κ) : Ledger κ := { L with items := L.items.free p }

/-- Whether an item counts as a reference to a box. -/
def points (d : Option ℕ) (m p : ℕ) (item : Item) : ℕ :=
  if some p ≠ d ∧ item.box = some m then 1 else 0

/-- How many items other than `d` point at a box. -/
def pointing (d : Option ℕ) (m : ℕ) (L : Ledger κ) : ℕ := L.items.tally (points d m)

/-- How often an item is in the list of a box. -/
def lists (p _m : ℕ) (box : Box κ) : ℕ := box.items.count p

/-- How often an item is listed. -/
def listings (p : ℕ) (L : Ledger κ) : ℕ := L.boxes.tally (lists p)

/-- An item is in no list. -/
def Unlisted (p : ℕ) (L : Ledger κ) : Prop :=
  ∀ m box, L.boxes.get m = some box → p ∉ box.items

variable {L : Ledger κ} {d : Option ℕ} {m p : ℕ} {box box' : Box κ} {item item' : Item}

theorem listings_eq_zero (h : L.Unlisted p) : L.listings p = 0 :=
  Heap.tally_eq_zero fun m box hm => List.count_eq_zero.mpr (h m box hm)

theorem unlisted_of_listings (h : L.listings p = 0) : L.Unlisted p := by
  intro m box hm hp
  have hle : box.items.count p ≤ L.listings p := Heap.le_tally (f := lists p) hm
  have hpos := List.count_pos_iff.mpr hp
  omega

theorem pointing_pos (hp : L.items.get p = some item) (hd : some p ≠ d)
    (hbox : item.box = some m) : 0 < L.pointing d m := by
  have hle : points d m p item ≤ L.pointing d m := Heap.le_tally hp
  rw [points, if_pos ⟨hd, hbox⟩] at hle
  exact hle

theorem points_self (m p : ℕ) (item : Item) : points (some p) m p item = 0 :=
  if_neg fun hne => hne.1 rfl

theorem points_of_ne (m : ℕ) {q : ℕ} (hq : q ≠ p) : points (some p) m q = points none m q := by
  funext item
  simp [points, hq]

theorem points_none (m p : ℕ) (item : Item) :
    points none m p item = item.box.toList.count m := by
  unfold points
  cases item.box with
  | none => simp
  | some b => simp [List.count_singleton]

theorem points_le (d : Option ℕ) (m p : ℕ) (item : Item) :
    points d m p item ≤ points none m p item := by
  unfold points
  split
  · rename_i hd
    rw [if_pos ⟨Option.some_ne_none p, hd.2⟩]
  · exact Nat.zero_le _

/-- Fewer items count when one is left out. -/
theorem pointing_le (d : Option ℕ) (m : ℕ) (L : Ledger κ) :
    L.pointing d m ≤ L.pointing none m :=
  Heap.tally_mono fun p item => points_le d m p item

theorem listings_setBox (p : ℕ) (box' : Box κ) (hm : L.boxes.get m = some box) :
    (L.setBox m box').listings p + box.items.count p = L.listings p + box'.items.count p :=
  Heap.tally_set (f := lists p) hm

theorem listings_addBox [DecidableEq κ] (p : ℕ) (box : Box κ) (L : Ledger κ) :
    (L.addBox box).listings p = L.listings p + box.items.count p :=
  Heap.tally_alloc (lists p) L.boxes box

theorem listings_dropBox (p : ℕ) (hm : L.boxes.get m = some box) :
    (L.dropBox m).listings p + box.items.count p = L.listings p :=
  Heap.tally_free (f := lists p) hm

theorem pointing_setItem (d : Option ℕ) (m : ℕ) (item' : Item)
    (hp : L.items.get p = some item) :
    (L.setItem p item').pointing d m + points d m p item = L.pointing d m + points d m p item' :=
  Heap.tally_set hp

/-- An item that is written but points where it did. -/
theorem pointing_setItem_of_box (d : Option ℕ) (m : ℕ) (hp : L.items.get p = some item)
    (hbox : item'.box = item.box) : (L.setItem p item').pointing d m = L.pointing d m := by
  have hsum := pointing_setItem d m item' hp
  rw [points, points, hbox] at hsum
  exact Nat.add_right_cancel hsum

/-! ## The invariant -/

/-- `own p` references to the item `p` and the references `held` to boxes are in the hands
of code; the item `d` does not count. -/
structure Balanced (own : ℕ → ℕ) (held : List ℕ) (d : Option ℕ) (L : Ledger κ) : Prop where
  backed : ∀ m box, L.boxes.get m = some box →
    ((L.pointing d m + held.count m : ℕ) : ℤ) ≤ box.refs
  freed : ∀ m, L.boxes.get m = none → L.pointing d m = 0 ∧ held.count m = 0
  counted : ∀ p item, L.items.get p = some item →
    item.refs = ((own p + L.listings p : ℕ) : ℤ)
  gone : ∀ p, L.items.get p = none → own p = 0 ∧ L.Unlisted p
  listed : ∀ m box p, L.boxes.get m = some box → p ∈ box.items →
    box.items.count p = 1 ∧ some p ≠ d ∧ ∃ item, L.items.get p = some item ∧ item.box = some m
  tabled : ∀ m box, L.boxes.get m = some box → L.table box.key = some m

namespace Balanced

variable {own own' : ℕ → ℕ} {held held' : List ℕ}

/-- References that are held may be forgotten. -/
theorem mono (h : Balanced own held d L) (hheld : ∀ m, held'.count m ≤ held.count m) :
    Balanced own held' d L where
  backed m box hm := by
    have hbacked := h.backed m box hm
    have hle := hheld m
    omega
  freed m hm := by
    obtain ⟨hpointing, hcount⟩ := h.freed m hm
    exact ⟨hpointing, Nat.eq_zero_of_le_zero (hcount ▸ hheld m)⟩
  counted := h.counted
  gone := h.gone
  listed := h.listed
  tabled := h.tabled

/-- An item that is listed is in the list of its box only. -/
theorem box_of_listed (h : Balanced own held d L) (hm : L.boxes.get m = some box)
    (hp : p ∈ box.items) (hitem : L.items.get p = some item) : item.box = some m := by
  obtain ⟨-, -, item', hitem', hbox⟩ := h.listed m box p hm hp
  obtain rfl := Option.some.inj (hitem.symm.trans hitem')
  exact hbox

/-- **A box whose count is used up** has an empty list. -/
theorem items_eq_nil (h : Balanced own held d L) (hm : L.boxes.get m = some box)
    (hrefs : box.refs ≤ held.count m) : box.items = [] := by
  refine List.eq_nil_iff_forall_not_mem.mpr fun p hp => ?_
  obtain ⟨-, hd, item, hitem, hbox⟩ := h.listed m box p hm hp
  have hpos := pointing_pos hitem hd hbox
  have hbacked := h.backed m box hm
  omega

/-! ## Writing a box -/

/-- A box is written. -/
theorem setBox (h : Balanced own held d L) (hm : L.boxes.get m = some box)
    (hkey : box'.key = box.key)
    (hrefs : ((L.pointing d m + held'.count m : ℕ) : ℤ) ≤ box'.refs)
    (hheld : ∀ k, k ≠ m → held'.count k = held.count k)
    (hown : ∀ p, own' p + box'.items.count p = own p + box.items.count p)
    (hlisted : ∀ p ∈ box'.items, box'.items.count p = 1 ∧ some p ≠ d ∧
      ∃ item, L.items.get p = some item ∧ item.box = some m) :
    Balanced own' held' d (L.setBox m box') := by
  have hget : (L.boxes.set m box').get m = some box' := Heap.get_set_self box' hm
  refine ⟨fun k b hk => ?_, fun k hk => ?_, fun p item hp => ?_, fun p hp => ?_,
    fun k b p hk hp => ?_, fun k b hk => ?_⟩
  · by_cases hkm : k = m
    · subst hkm
      obtain rfl := Option.some.inj (hget.symm.trans hk)
      exact hrefs
    · rw [hheld k hkm]
      exact h.backed k b ((Heap.get_set_of_ne box' hkm).symm.trans hk)
  · have hkm : k ≠ m := by
      rintro rfl
      exact absurd (hk.symm.trans hget).symm (Option.some_ne_none _)
    rw [hheld k hkm]
    exact h.freed k ((Heap.get_set_of_ne box' hkm).symm.trans hk)
  · have hcounted := h.counted p item hp
    have hp' := listings_setBox p box' hm
    have hp'' := hown p
    omega
  · obtain ⟨hzero, hunlisted⟩ := h.gone p hp
    have hp' := listings_setBox p box' hm
    have hp'' := hown p
    have hnot : box.items.count p = 0 := List.count_eq_zero.mpr (hunlisted m box hm)
    have hlistings := listings_eq_zero hunlisted
    have hnot' : box'.items.count p = 0 := by
      refine List.count_eq_zero.mpr fun hmem => ?_
      obtain ⟨-, -, item, hitem, -⟩ := hlisted p hmem
      exact absurd (hp.symm.trans hitem).symm (Option.some_ne_none _)
    exact ⟨by omega, unlisted_of_listings (by omega)⟩
  · by_cases hkm : k = m
    · subst hkm
      obtain rfl := Option.some.inj (hget.symm.trans hk)
      exact hlisted p hp
    · exact h.listed k b p ((Heap.get_set_of_ne box' hkm).symm.trans hk) hp
  · by_cases hkm : k = m
    · subst hkm
      obtain rfl := Option.some.inj (hget.symm.trans hk)
      exact hkey ▸ h.tabled k box hm
    · exact h.tabled k b ((Heap.get_set_of_ne box' hkm).symm.trans hk)

/-- A reference to a box is taken. -/
theorem retain (h : Balanced own held d L) (hm : L.boxes.get m = some box) :
    Balanced own (m :: held) d (L.setBox m { box with refs := box.refs + 1 }) := by
  refine h.setBox hm rfl ?_ (fun k hk => List.count_cons_of_ne hk.symm) (fun _ => rfl)
    fun p hp => h.listed m box p hm hp
  have hbacked := h.backed m box hm
  rw [List.count_cons_self]
  dsimp only
  omega

/-- A reference to a box is given back. -/
theorem release (h : Balanced own (m :: held) d L) (hm : L.boxes.get m = some box) :
    Balanced own held d (L.setBox m { box with refs := box.refs - 1 }) := by
  refine h.setBox hm rfl ?_ (fun k hk => (List.count_cons_of_ne hk.symm).symm) (fun _ => rfl)
    fun p hp => h.listed m box p hm hp
  have hbacked := h.backed m box hm
  rw [List.count_cons_self] at hbacked
  dsimp only
  omega

/-- A reference to an item becomes that of a list. -/
theorem list (h : Balanced own held d L) (hm : L.boxes.get m = some box)
    (hitem : L.items.get p = some item) (hbox : item.box = some m) (hd : some p ≠ d)
    (hp : L.Unlisted p) (hpos : 0 < own p) :
    Balanced (Function.update own p (own p - 1)) held d
      (L.setBox m { box with items := p :: box.items }) := by
  have hnot : box.items.count p = 0 := List.count_eq_zero.mpr (hp m box hm)
  refine h.setBox hm rfl (h.backed m box hm) (fun _ _ => rfl) (fun q => ?_) fun q hq => ?_
  · by_cases hqp : q = p
    · rw [hqp, Function.update_self, List.count_cons_self]
      omega
    · rw [Function.update_of_ne hqp, List.count_cons_of_ne (Ne.symm hqp)]
  · rcases List.mem_cons.mp hq with rfl | hq
    · exact ⟨by rw [List.count_cons_self, hnot], hd, item, hitem, hbox⟩
    · have hqp : q ≠ p := fun hqp => hp m box hm (hqp ▸ hq)
      rw [List.count_cons_of_ne (Ne.symm hqp)]
      exact h.listed m box q hm hq

/-- The reference of a list is taken out of it. -/
theorem unlist (h : Balanced own held d L) (hm : L.boxes.get m = some box)
    (hp : p ∈ box.items) :
    Balanced (Function.update own p (own p + 1)) held d
      (L.setBox m { box with items := box.items.erase p }) := by
  have hone : box.items.count p = 1 := (h.listed m box p hm hp).1
  refine h.setBox hm rfl (h.backed m box hm) (fun _ _ => rfl) (fun q => ?_) fun q hq => ?_
  · by_cases hqp : q = p
    · rw [hqp, Function.update_self, List.count_erase_self]
      omega
    · rw [Function.update_of_ne hqp, List.count_erase_of_ne hqp]
  · have hqp : q ≠ p := by
      rintro rfl
      have hpos := List.count_pos_iff.mpr hq
      rw [List.count_erase_self] at hpos
      omega
    rw [List.count_erase_of_ne hqp]
    exact h.listed m box q hm (List.mem_of_mem_erase hq)

/-- An item that was taken out of the list of its box is in no list. -/
theorem unlisted_erase (h : Balanced own held d L) (hm : L.boxes.get m = some box)
    (hitem : L.items.get p = some item) (hbox : item.box = some m) :
    (L.setBox m { box with items := box.items.erase p }).Unlisted p := by
  intro k b hk hp
  by_cases hkm : k = m
  · subst hkm
    obtain rfl := Option.some.inj ((Heap.get_set_self _ hm).symm.trans hk)
    have hone := (h.listed k box p hm (List.mem_of_mem_erase hp)).1
    have hpos := List.count_pos_iff.mpr hp
    rw [List.count_erase_self] at hpos
    omega
  · have hother := h.box_of_listed ((Heap.get_set_of_ne _ hkm).symm.trans hk) hp hitem
    exact hkm (Option.some.inj (hother.symm.trans hbox))

/-! ## Making and freeing a box -/

/-- A box is made for a key that has none. -/
theorem create [DecidableEq κ] (h : Balanced own held d L) (hkey : L.table box.key = none)
    (hrefs : 1 ≤ box.refs) (hitems : box.items = []) :
    Balanced own (L.boxes.next :: held) d (L.addBox box) := by
  obtain ⟨hpointing, hcount⟩ := h.freed L.boxes.next L.boxes.get_next
  have hsum : ∀ p, (L.addBox box).listings p = L.listings p := by
    intro p
    rw [listings_addBox, hitems, List.count_nil, Nat.add_zero]
  refine ⟨fun k b hk => ?_, fun k hk => ?_, fun p item hp => ?_, fun p hp => ?_,
    fun k b p hk hp => ?_, fun k b hk => ?_⟩
  · rcases Heap.get_alloc_eq_some hk with ⟨rfl, rfl⟩ | ⟨hne, hk⟩
    · have hzero : (L.addBox b).pointing d L.boxes.next = 0 := hpointing
      rw [List.count_cons_self, hzero, hcount]
      exact hrefs
    · rw [List.count_cons_of_ne hne.symm]
      exact h.backed k b hk
  · have hne : k ≠ L.boxes.next := by
      rintro rfl
      exact absurd (hk.symm.trans (Heap.get_alloc_next L.boxes box)).symm (Option.some_ne_none _)
    rw [List.count_cons_of_ne hne.symm]
    refine h.freed k ?_
    exact (if_neg hne).symm.trans hk
  · rw [hsum]
    exact h.counted p item hp
  · refine ⟨(h.gone p hp).1, unlisted_of_listings ?_⟩
    rw [hsum]
    exact listings_eq_zero (h.gone p hp).2
  · rcases Heap.get_alloc_eq_some hk with ⟨-, rfl⟩ | ⟨-, hk⟩
    · rw [hitems] at hp
      exact absurd hp List.not_mem_nil
    · exact h.listed k b p hk hp
  · rcases Heap.get_alloc_eq_some hk with ⟨rfl, rfl⟩ | ⟨-, hk⟩
    · exact Function.update_self _ _ _
    · have htable := h.tabled k b hk
      refine (Function.update_of_ne ?_ _ _).trans htable
      rintro heq
      rw [heq, hkey] at htable
      exact absurd htable.symm (Option.some_ne_none k)

/-- A box whose count is used up is freed. -/
theorem discard (h : Balanced own held d L) (hm : L.boxes.get m = some box)
    (hrefs : box.refs ≤ 0) : Balanced own held d (L.dropBox m) := by
  have hbacked := h.backed m box hm
  have hitems : box.items = [] := h.items_eq_nil hm (by omega)
  have hold : ∀ k b, (L.dropBox m).boxes.get k = some b → k ≠ m ∧ L.boxes.get k = some b := by
    intro k b hk
    have hkm : k ≠ m := by
      rintro rfl
      exact absurd ((Heap.get_free_self L.boxes k).symm.trans hk).symm (Option.some_ne_none _)
    exact ⟨hkm, (if_neg hkm).symm.trans hk⟩
  have hsum : ∀ p, (L.dropBox m).listings p = L.listings p := by
    intro p
    rw [← listings_dropBox p hm, hitems, List.count_nil, Nat.add_zero]
  refine ⟨fun k b hk => h.backed k b (hold k b hk).2, fun k hk => ?_, fun p item hp => ?_,
    fun p hp => ?_, fun k b p hk hp => h.listed k b p (hold k b hk).2 hp,
    fun k b hk => h.tabled k b (hold k b hk).2⟩
  · by_cases hkm : k = m
    · have hzero : L.pointing d m + held.count m = 0 := by omega
      rw [hkm]
      exact Nat.add_eq_zero_iff.mp hzero
    · exact h.freed k ((if_neg hkm).symm.trans hk)
  · rw [hsum]
    exact h.counted p item hp
  · obtain ⟨hzero, hunlisted⟩ := h.gone p hp
    exact ⟨hzero, fun k b hk => hunlisted k b (hold k b hk).2⟩

/-- A key that no box has is taken out of the table. -/
theorem clear [DecidableEq κ] {k : κ} (h : Balanced own held d L)
    (hk : ∀ m box, L.boxes.get m = some box → box.key ≠ k) :
    Balanced own held d (L.clear k) :=
  ⟨h.backed, h.freed, h.counted, h.gone, h.listed, fun m box hm =>
    (Function.update_of_ne (hk m box hm) _ _).trans (h.tabled m box hm)⟩

/-! ## Writing, making and freeing an item -/

/-- An item is counted again. -/
theorem recount (h : Balanced own held d L) (hp : L.items.get p = some item)
    (hbox : item'.box = item.box) (hrefs : item'.refs = ((own' p + L.listings p : ℕ) : ℤ))
    (hown : ∀ q, q ≠ p → own' q = own q) : Balanced own' held d (L.setItem p item') := by
  have hget : (L.items.set p item').get p = some item' := Heap.get_set_self item' hp
  have hpointing := fun k => pointing_setItem_of_box d k hp hbox
  refine ⟨fun k b hk => ?_, fun k hk => ?_, fun q i hq => ?_, fun q hq => ?_,
    fun k b q hk hq => ?_, h.tabled⟩
  · rw [hpointing]
    exact h.backed k b hk
  · rw [hpointing]
    exact h.freed k hk
  · by_cases hqp : q = p
    · subst hqp
      obtain rfl := Option.some.inj (hget.symm.trans hq)
      exact hrefs
    · rw [hown q hqp]
      exact h.counted q i ((Heap.get_set_of_ne item' hqp).symm.trans hq)
  · have hqp : q ≠ p := by
      rintro rfl
      exact absurd (hq.symm.trans hget).symm (Option.some_ne_none _)
    rw [hown q hqp]
    exact h.gone q ((Heap.get_set_of_ne item' hqp).symm.trans hq)
  · obtain ⟨hone, hd, i, hi, hbox'⟩ := h.listed k b q hk hq
    refine ⟨hone, hd, ?_⟩
    by_cases hqp : q = p
    · subst hqp
      obtain rfl := Option.some.inj (hp.symm.trans hi)
      exact ⟨item', hget, hbox.trans hbox'⟩
    · exact ⟨i, (Heap.get_set_of_ne item' hqp).trans hi, hbox'⟩

/-- An item that is in no list is pointed at a box, with a reference that was held. -/
theorem point (h : Balanced own (item'.box.toList ++ held) d L)
    (hp : L.items.get p = some item) (hrefs : item'.refs = item.refs) (hunlisted : L.Unlisted p) :
    Balanced own held d (L.setItem p item') := by
  have hget : (L.items.set p item').get p = some item' := Heap.get_set_self item' hp
  have hle : ∀ k, (L.setItem p item').pointing d k + held.count k
      ≤ L.pointing d k + (item'.box.toList ++ held).count k := by
    intro k
    have hsum := pointing_setItem d k item' hp
    have hpoints := points_le d k p item'
    rw [points_none] at hpoints
    rw [List.count_append]
    omega
  refine ⟨fun k b hk => ?_, fun k hk => ?_, fun q i hq => ?_, fun q hq => ?_,
    fun k b q hk hq => ?_, h.tabled⟩
  · have hbacked := h.backed k b hk
    have hk := hle k
    omega
  · obtain ⟨hzero, hzero'⟩ := h.freed k hk
    have hk := hle k
    exact Nat.add_eq_zero_iff.mp (by omega)
  · by_cases hqp : q = p
    · subst hqp
      obtain rfl := Option.some.inj (hget.symm.trans hq)
      exact hrefs.trans (h.counted q item hp)
    · exact h.counted q i ((Heap.get_set_of_ne item' hqp).symm.trans hq)
  · have hqp : q ≠ p := by
      rintro rfl
      exact absurd (hq.symm.trans hget).symm (Option.some_ne_none _)
    exact h.gone q ((Heap.get_set_of_ne item' hqp).symm.trans hq)
  · have hqp : q ≠ p := fun hqp => hunlisted k b hk (hqp ▸ hq)
    obtain ⟨hone, hd, i, hi, hbox⟩ := h.listed k b q hk hq
    exact ⟨hone, hd, i, (Heap.get_set_of_ne item' hqp).trans hi, hbox⟩

/-- An item goes into a box: it is listed there with a reference that somebody owned, and
the box counts a reference for it. -/
theorem enter (h : Balanced own held none L) (hm : L.boxes.get m = some box)
    (hp : L.items.get p = some item) (hunlisted : L.Unlisted p) (hown : 0 < own p) :
    Balanced (Function.update own p (own p - 1)) held none
      ((L.setBox m { box with refs := box.refs + 1, items := p :: box.items }).setItem p
        { item with box := some m }) := by
  have hretained := h.retain hm
  have hm' : (L.setBox m { box with refs := box.refs + 1 }).boxes.get m
      = some { box with refs := box.refs + 1 } := Heap.get_set_self _ hm
  have hunlisted' : (L.setBox m { box with refs := box.refs + 1 }).Unlisted p := by
    intro k b hk
    by_cases hkm : k = m
    · subst hkm
      obtain rfl := Option.some.inj (hm'.symm.trans hk)
      exact hunlisted k box hm
    · exact hunlisted k b ((Heap.get_set_of_ne _ hkm).symm.trans hk)
  have hpointed : Balanced own held none
      ((L.setBox m { box with refs := box.refs + 1 }).setItem p { item with box := some m }) :=
    hretained.point hp rfl hunlisted'
  have hlisted := hpointed.list hm' (Heap.get_set_self _ hp) rfl (Option.some_ne_none p)
    hunlisted' hown
  have hset := Heap.set_set L.boxes m { box with refs := box.refs + 1 }
    { box with refs := box.refs + 1, items := p :: box.items }
  rw [Ledger.setItem, Ledger.setBox, ← hset]
  exact hlisted

/-- An item that is in no list no longer counts, and its reference is held. -/
theorem retire (h : Balanced own held none L) (hp : L.items.get p = some item)
    (hunlisted : L.Unlisted p) : Balanced own (item.box.toList ++ held) (some p) L := by
  have heq : ∀ k, L.pointing (some p) k + (item.box.toList ++ held).count k
      = L.pointing none k + held.count k := by
    intro k
    have hchange : L.pointing (some p) k + L.items.share (points none k) p
        = L.pointing none k + L.items.share (points (some p) k) p := by
      refine Heap.tally_change rfl fun q hq => ?_
      rw [Heap.share, Heap.share, points_of_ne k hq]
    rw [Heap.share_of_get hp, Heap.share_of_get hp, points_self, points_none] at hchange
    rw [List.count_append]
    omega
  refine ⟨fun k b hk => ?_, fun k hk => ?_, h.counted, h.gone, fun k b q hk hq => ?_, h.tabled⟩
  · rw [heq]
    exact h.backed k b hk
  · obtain ⟨hzero, hzero'⟩ := h.freed k hk
    exact Nat.add_eq_zero_iff.mp (by rw [heq]; omega)
  · obtain ⟨hone, -, hitem⟩ := h.listed k b q hk hq
    refine ⟨hone, fun hqp => hunlisted k b hk ?_, hitem⟩
    rwa [← Option.some.inj hqp]

/-- The item that does not count is freed. -/
theorem bury (h : Balanced own held (some p) L) (hown : own p = 0) :
    Balanced own held none (L.dropItem p) := by
  have hpointing : ∀ k, (L.dropItem p).pointing none k = L.pointing (some p) k := by
    intro k
    have hchange : (L.dropItem p).pointing none k + L.items.share (points (some p) k) p
        = L.pointing (some p) k + (L.dropItem p).items.share (points none k) p := by
      refine Heap.tally_change rfl fun q hq => ?_
      rw [Heap.share, Heap.share, points_of_ne k hq,
        show (L.dropItem p).items.get q = L.items.get q from if_neg hq]
    have hgone : (L.dropItem p).items.share (points none k) p = 0 :=
      Heap.share_of_get_none (Heap.get_free_self L.items p)
    have hout : L.items.share (points (some p) k) p = 0 := by
      rw [Heap.share]
      cases L.items.get p with
      | none => rfl
      | some i => exact points_self k p i
    omega
  have hold : ∀ q i, (L.dropItem p).items.get q = some i → L.items.get q = some i := by
    intro q i hq
    have hqp : q ≠ p := by
      rintro rfl
      exact absurd ((Heap.get_free_self L.items q).symm.trans hq).symm (Option.some_ne_none _)
    exact (if_neg hqp).symm.trans hq
  refine ⟨fun k b hk => ?_, fun k hk => ?_, fun q i hq => h.counted q i (hold q i hq),
    fun q hq => ?_, fun k b q hk hq => ?_, h.tabled⟩
  · rw [hpointing]
    exact h.backed k b hk
  · rw [hpointing]
    exact h.freed k hk
  · by_cases hqp : q = p
    · subst hqp
      exact ⟨hown, fun k b hk hq' => (h.listed k b q hk hq').2.1 rfl⟩
    · exact h.gone q ((if_neg hqp).symm.trans hq)
  · obtain ⟨hone, hd, i, hi, hbox⟩ := h.listed k b q hk hq
    have hqp : q ≠ p := fun hqp => hd (congrArg some hqp)
    exact ⟨hone, Option.some_ne_none q, i, (if_neg hqp).trans hi, hbox⟩

/-- An item is made, with one reference. -/
theorem born (h : Balanced own held d L) (hbox : item.box = none) (hrefs : item.refs = 1) :
    Balanced (Function.update own L.items.next 1) held d (L.addItem item) := by
  have hpointing : ∀ k, (L.addItem item).pointing d k = L.pointing d k := by
    intro k
    have halloc : (L.addItem item).pointing d k
        = L.pointing d k + points d k L.items.next item := Heap.tally_alloc _ _ _
    rw [halloc, points, hbox, if_neg (fun hk => absurd hk.2.symm (Option.some_ne_none k)),
      Nat.add_zero]
  obtain ⟨-, hunlisted⟩ := h.gone L.items.next L.items.get_next
  refine ⟨fun k b hk => ?_, fun k hk => ?_, fun q i hq => ?_, fun q hq => ?_,
    fun k b q hk hq => ?_, h.tabled⟩
  · rw [hpointing]
    exact h.backed k b hk
  · rw [hpointing]
    exact h.freed k hk
  · rcases Heap.get_alloc_eq_some hq with ⟨rfl, rfl⟩ | ⟨hne, hq⟩
    · have hzero : (L.addItem i).listings L.items.next = 0 := listings_eq_zero hunlisted
      rw [Function.update_self, hrefs, hzero]
      rfl
    · rw [Function.update_of_ne hne]
      exact h.counted q i hq
  · have hne : q ≠ L.items.next := by
      rintro rfl
      exact absurd (hq.symm.trans (Heap.get_alloc_next L.items item)).symm
        (Option.some_ne_none _)
    rw [Function.update_of_ne hne]
    exact h.gone q ((if_neg hne).symm.trans hq)
  · obtain ⟨hone, hd, i, hi, hbox'⟩ := h.listed k b q hk hq
    exact ⟨hone, hd, i, Heap.get_alloc_of_get item hi, hbox'⟩

end Balanced

/-! ## What the invariant is for

While code is under way, the invariant may be broken for a moment, but this part of it
holds all the time. -/

/-- **Every box that is referred to** by an item or by `held` is in the table under its
key, and its count is large enough. -/
def Backed (held : List ℕ) (d : Option ℕ) (L : Ledger κ) : Prop :=
  ∀ m, 0 < L.pointing d m + held.count m → ∃ box, L.boxes.get m = some box ∧
    L.table box.key = some m ∧ ((L.pointing d m + held.count m : ℕ) : ℤ) ≤ box.refs

variable {held : List ℕ}

theorem Balanced.toBacked {own : ℕ → ℕ} (h : Balanced own held d L) : Backed held d L := by
  intro m hpos
  cases hm : L.boxes.get m with
  | none =>
    obtain ⟨hzero, hzero'⟩ := h.freed m hm
    omega
  | some box => exact ⟨box, rfl, h.tabled m box hm, h.backed m box hm⟩

namespace Backed

theorem mono {held' : List ℕ} (h : Backed held d L)
    (hheld : ∀ m, held'.count m ≤ held.count m) : Backed held' d L := by
  intro m hpos
  have hle := hheld m
  obtain ⟨box, hm, htable, hrefs⟩ := h m (by omega)
  exact ⟨box, hm, htable, by omega⟩

theorem except (h : Backed held none L) (d : Option ℕ) : Backed held d L := by
  intro m hpos
  have hle := pointing_le d m L
  obtain ⟨box, hm, htable, hrefs⟩ := h m (by omega)
  exact ⟨box, hm, htable, by omega⟩

/-- A count that grows stays large enough. -/
theorem setBox (h : Backed held d L) (hm : L.boxes.get m = some box)
    (hkey : box'.key = box.key) (hrefs : box.refs ≤ box'.refs) :
    Backed held d (L.setBox m box') := by
  intro k hpos
  obtain ⟨b, hk, htable, hle⟩ := h k hpos
  by_cases hkm : k = m
  · subst hkm
    obtain rfl := Option.some.inj (hm.symm.trans hk)
    exact ⟨box', Heap.get_set_self box' hm, hkey ▸ htable, hle.trans hrefs⟩
  · exact ⟨b, (Heap.get_set_of_ne box' hkm).trans hk, htable, hle⟩

theorem addBox [DecidableEq κ] (h : Backed held d L) (hkey : L.table box.key = none) :
    Backed held d (L.addBox box) := by
  intro k hpos
  obtain ⟨b, hk, htable, hle⟩ := h k hpos
  refine ⟨b, Heap.get_alloc_of_get box hk, ?_, hle⟩
  refine (Function.update_of_ne ?_ _ _).trans htable
  intro heq
  rw [heq, hkey] at htable
  exact absurd htable.symm (Option.some_ne_none k)

end Backed
end Ledger
end MmoBackend
