import Mathlib.Data.List.Nodup
import MmoBackend.Library.Heap

/-!
# Singly linked lists on a heap

A link carries a payload and points to the next link.  `Chain h head l` says that the
links from `head` on, down to the null pointer, are those of `l`, which lists their
pointers with the payloads.

Programs that share such a list also follow links that have left it.  `Leads h a cur` says
that whoever follows the links from `cur` comes past the link `a`, unless it runs into freed
memory first.  Taking another link out of a list and freeing it keeps that.
-/

namespace MmoBackend

/-- A link of a list. -/
structure Link (α : Type) where
  next : Option ℕ
  payload : α
  deriving DecidableEq

variable {α : Type} {h : Heap (Link α)} {head next : Option ℕ} {a b : ℕ} {u v : α}
  {l l' : List (ℕ × α)}

/-- The links from `head` on are those of the list. -/
inductive Chain (h : Heap (Link α)) : Option ℕ → List (ℕ × α) → Prop
  | nil : Chain h none []
  | cons {a : ℕ} {next : Option ℕ} {v : α} {l : List (ℕ × α)} :
      h.get a = some ⟨next, v⟩ → Chain h next l → Chain h (some a) ((a, v) :: l)

/-- There is a link at `a`, and it carries `v`. -/
def Carries (h : Heap (Link α)) (a : ℕ) (v : α) : Prop := ∃ next, h.get a = some ⟨next, v⟩

theorem Carries.unique (hu : Carries h a u) (hv : Carries h a v) : u = v := by
  obtain ⟨_, hu⟩ := hu
  obtain ⟨_, hv⟩ := hv
  rw [hu] at hv
  exact congrArg Link.payload (Option.some.inj hv)

theorem carries_alloc {link : Link α} :
    Carries (h.alloc link) a v ↔ a = h.next ∧ v = link.payload ∨ Carries h a v := by
  constructor
  · rintro ⟨next, hget⟩
    obtain ⟨ha, rfl⟩ | ⟨-, hget⟩ := Heap.get_alloc_eq_some hget
    · exact Or.inl ⟨ha, rfl⟩
    · exact Or.inr ⟨next, hget⟩
  · rintro (⟨rfl, rfl⟩ | ⟨next, hget⟩)
    · exact ⟨link.next, h.get_alloc_next link⟩
    · exact ⟨next, Heap.get_alloc_of_get link hget⟩

/-- Linking a link to another one keeps the payloads. -/
theorem carries_set (hb : h.get b = some ⟨head, u⟩) :
    Carries (h.set b ⟨next, u⟩) a v ↔ Carries h a v := by
  by_cases hab : a = b
  · subst hab
    have hset := Heap.get_set_self (⟨next, u⟩ : Link α) hb
    constructor
    · rintro ⟨_, hget⟩
      rw [hset] at hget
      obtain rfl := congrArg Link.payload (Option.some.inj hget)
      exact ⟨head, hb⟩
    · rintro ⟨_, hget⟩
      rw [hb] at hget
      obtain rfl := congrArg Link.payload (Option.some.inj hget)
      exact ⟨next, hset⟩
  · rw [Carries, Carries, Heap.get_set_of_ne _ hab]

theorem carries_free : Carries (h.free b) a v ↔ a ≠ b ∧ Carries h a v := by
  by_cases hab : a = b
  · subst hab
    simp [Carries]
  · rw [Carries, Carries, h.get_free_of_ne hab]
    exact (and_iff_right hab).symm

namespace Chain

/-- The links of a list are allocated and carry its payloads. -/
theorem carries (hl : Chain h head l) (hmem : (a, v) ∈ l) : Carries h a v := by
  induction hl with
  | nil => exact absurd hmem List.not_mem_nil
  | cons hget _ ih =>
    rcases List.mem_cons.mp hmem with heq | hmem
    · obtain ⟨rfl, rfl⟩ := Prod.mk.inj heq
      exact ⟨_, hget⟩
    · exact ih hmem

/-- The pointer to the first link determines the list. -/
theorem unique (hl : Chain h head l) (hl' : Chain h head l') : l = l' := by
  induction hl generalizing l' with
  | nil =>
    cases hl'
    rfl
  | cons hget _ ih =>
    cases hl' with
    | cons hget' hrest' =>
      rw [hget] at hget'
      obtain ⟨rfl, rfl⟩ := Link.mk.inj (Option.some.inj hget')
      rw [ih hrest']

/-- The null pointer is the empty list. -/
theorem eq_nil (hl : Chain h none l) : l = [] := by
  cases hl
  rfl

/-- A list starts with its first link. -/
theorem head_eq (hl : Chain h head l) : head = l.head?.map Prod.fst := by
  cases hl with
  | nil => rfl
  | cons => rfl

theorem exists_cons (hl : Chain h (some a) l) : ∃ v l', l = (a, v) :: l' := by
  cases hl with
  | cons => exact ⟨_, _, rfl⟩

/-- From each of its links on, a list is a list. -/
theorem from_link (hl : Chain h head l) (hmem : (a, v) ∈ l) :
    ∃ l', Chain h (some a) l' ∧ l'.length ≤ l.length := by
  induction hl with
  | nil => exact absurd hmem List.not_mem_nil
  | cons hget hrest ih =>
    rcases List.mem_cons.mp hmem with heq | hmem
    · obtain ⟨rfl, rfl⟩ := Prod.mk.inj heq
      exact ⟨_, .cons hget hrest, le_rfl⟩
    · obtain ⟨l', hl', hlen⟩ := ih hmem
      exact ⟨l', hl', Nat.le_succ_of_le hlen⟩

/-- A list does not come back to a link it has passed. -/
theorem notMem_rest (hl : Chain h (some a) ((a, u) :: l)) (v : α) : (a, v) ∉ l := by
  intro hmem
  cases hl with
  | cons hget hrest =>
    obtain ⟨l', hl', hlen⟩ := hrest.from_link hmem
    obtain rfl := hl'.unique (.cons hget hrest)
    exact absurd hlen (Nat.not_succ_le_self _)

theorem nodup (hl : Chain h head l) : l.Nodup := by
  induction hl with
  | nil => exact List.nodup_nil
  | cons hget hrest ih => exact List.nodup_cons.mpr ⟨(Chain.cons hget hrest).notMem_rest _, ih⟩

/-- Writes to other links do not touch a list. -/
theorem congr {h' : Heap (Link α)} (hl : Chain h head l)
    (hkept : ∀ a v, (a, v) ∈ l → h'.get a = h.get a) : Chain h' head l := by
  induction hl with
  | nil => exact .nil
  | cons hget _ ih =>
    refine .cons ((hkept _ _ List.mem_cons_self).trans hget) (ih fun a v hmem => ?_)
    exact hkept a v (List.mem_cons_of_mem _ hmem)

/-- A new link is not on a list. -/
theorem alloc (hl : Chain h head l) (link : Link α) : Chain (h.alloc link) head l :=
  hl.congr fun a u hmem => by
    obtain ⟨next, hget⟩ := hl.carries hmem
    exact (Heap.get_alloc_of_get link hget).trans hget.symm

/-- A new link in front of a list. -/
theorem push (hl : Chain h head l) (v : α) :
    Chain (h.alloc ⟨head, v⟩) (some h.next) ((h.next, v) :: l) :=
  .cons (h.get_alloc_next _) (hl.alloc _)

/-- Freeing a link that is not on a list. -/
theorem free (hl : Chain h head l) (ha : ∀ v, (a, v) ∉ l) : Chain (h.free a) head l := by
  refine hl.congr fun b v hmem => h.get_free_of_ne ?_
  rintro rfl
  exact ha v hmem

/-- The last link points nowhere. -/
theorem get_last (hl : Chain h head (l ++ [(b, u)])) : h.get b = some ⟨none, u⟩ := by
  induction l generalizing head with
  | nil =>
    cases hl with
    | cons hget hrest =>
      cases hrest
      exact hget
  | cons e l ih =>
    cases hl with
    | cons _ hrest => exact ih hrest

/-- **Writing to the last link** changes what it carries and what comes behind it. -/
theorem set_last (hl : Chain h head (l ++ [(b, u)])) (hrest : Chain (h.set b ⟨next, v⟩) next l') :
    Chain (h.set b ⟨next, v⟩) head (l ++ (b, v) :: l') := by
  have hset := Heap.get_set_self (⟨next, v⟩ : Link α) hl.get_last
  induction l generalizing head with
  | nil =>
    cases hl with
    | cons hget _ => exact .cons hset hrest
  | cons e l ih =>
    obtain ⟨a, w⟩ := e
    have hnot := hl
    cases hl with
    | cons hget htail =>
      refine .cons ((Heap.get_set_of_ne _ ?_).trans hget) (ih htail)
      rintro rfl
      refine (hnot.notMem_rest u) ?_
      exact List.mem_append_right _ List.mem_cons_self

/-- A list with a last link has a first one. -/
theorem or_head (hl : Chain h head (l ++ [(b, u)])) (o : Option ℕ) : head.or o = head := by
  cases head with
  | none => exact absurd hl.eq_nil (List.append_ne_nil_of_right_ne_nil _ (List.cons_ne_nil _ _))
  | some a => rfl

/-- A new link behind the last one. -/
theorem add_last (hl : Chain h head (l ++ [(b, u)])) (v : α) :
    Chain ((h.alloc ⟨none, v⟩).set b ⟨some h.next, u⟩) head (l ++ [(b, u)] ++ [(h.next, v)]) := by
  have hne : h.next ≠ b := (Heap.ne_next hl.get_last).symm
  have hnew := (Heap.get_set_of_ne ⟨some h.next, u⟩ hne).trans (h.get_alloc_next ⟨none, v⟩)
  rw [List.append_assoc]
  exact (hl.alloc ⟨none, v⟩).set_last (.cons hnew .nil)

/-- Taking the first link out. -/
theorem pop (hl : Chain h (some a) l) (ha : h.get a = some ⟨next, v⟩) :
    ∃ l', l = (a, v) :: l' ∧ Chain h next l' := by
  cases hl with
  | cons hget hrest =>
    rw [ha] at hget
    obtain ⟨rfl, rfl⟩ := Link.mk.inj (Option.some.inj hget)
    exact ⟨_, rfl, hrest⟩

/-- **Taking a link out** after the link `b` that points to it. -/
theorem unlink (hl : Chain h head l) (hmem : (b, u) ∈ l) (hb : h.get b = some ⟨some a, u⟩)
    (ha : h.get a = some ⟨next, v⟩) :
    ∃ l₁ l₂, l = l₁ ++ (a, v) :: l₂ ∧ Chain (h.set b ⟨next, u⟩) head (l₁ ++ l₂) := by
  induction hl with
  | nil => exact absurd hmem List.not_mem_nil
  | @cons c n w l hget hrest ih =>
    have hnot := (Chain.cons hget hrest).notMem_rest
    by_cases hcb : c = b
    · subst hcb
      rw [hb] at hget
      obtain ⟨rfl, rfl⟩ := Link.mk.inj (Option.some.inj hget)
      obtain ⟨l₂, rfl, hl₂⟩ := hrest.pop ha
      refine ⟨[(c, u)], l₂, rfl, .cons (Heap.get_set_self _ hb) (hl₂.congr fun d w hd => ?_)⟩
      refine Heap.get_set_of_ne _ ?_
      rintro rfl
      exact hnot w (List.mem_cons_of_mem _ hd)
    · rcases List.mem_cons.mp hmem with heq | hmem
      · exact absurd (congrArg Prod.fst heq).symm hcb
      · obtain ⟨l₁, l₂, rfl, hl₂⟩ := ih hmem
        exact ⟨(c, w) :: l₁, l₂, rfl, .cons ((Heap.get_set_of_ne _ hcb).trans hget) hl₂⟩

end Chain

/-! ## Following links -/

/-- Who follows the links from a pointer on comes past the link `a`, or into freed memory. -/
inductive Leads (h : Heap (Link α)) (a : ℕ) : Option ℕ → Prop
  | here : Leads h a (some a)
  | next {b : ℕ} {link : Link α} : h.get b = some link → Leads h a link.next → Leads h a (some b)
  | freed {b : ℕ} : b < h.next → h.get b = none → Leads h a (some b)

namespace Leads

theorem ne_none (hl : Leads h a head) : head ≠ none := by
  cases hl <;> exact Option.some_ne_none _

/-- One link further. -/
theorem step {link : Link α} (hl : Leads h a (some b)) (hab : a ≠ b)
    (hb : h.get b = some link) : Leads h a link.next := by
  cases hl with
  | here => exact absurd rfl hab
  | next hget hrest =>
    rw [hb] at hget
    obtain rfl := Option.some.inj hget
    exact hrest
  | freed _ hget =>
    rw [hb] at hget
    exact absurd hget (Option.some_ne_none _)

/-- A list leads to each of its links. -/
theorem of_chain (hl : Chain h head l) (hmem : (a, v) ∈ l) : Leads h a head := by
  induction hl with
  | nil => exact absurd hmem List.not_mem_nil
  | cons hget _ ih =>
    rcases List.mem_cons.mp hmem with heq | hmem
    · obtain ⟨rfl, rfl⟩ := Prod.mk.inj heq
      exact .here
    · exact .next hget (ih hmem)

theorem alloc (link : Link α) (hl : Leads h a head) : Leads (h.alloc link) a head := by
  induction hl with
  | here => exact .here
  | next hget _ ih => exact .next (Heap.get_alloc_of_get link hget) ih
  | freed hlt hget =>
    exact .freed (Nat.lt_succ_of_lt hlt) ((if_neg (Nat.ne_of_lt hlt)).trans hget)

/-- Freeing another link. -/
theorem free (hl : Leads h a head) (hab : a ≠ b) : Leads (h.free b) a head := by
  induction hl with
  | here => exact .here
  | @next c _ hget _ ih =>
    by_cases hcb : c = b
    · subst hcb
      exact .freed (b := c) (Heap.lt_next (h := h) hget) (h.get_free_self c)
    · exact .next ((h.get_free_of_ne hcb).trans hget) ih
  | @freed c hlt hget =>
    refine .freed hlt ?_
    by_cases hcb : c = b
    · rw [hcb]
      exact h.get_free_self b
    · exact (h.get_free_of_ne hcb).trans hget

/-- **Taking another link out.**  Whoever still follows the link `z` that was taken out
comes back to the list. -/
theorem unlink {z : ℕ} (hl : Leads h a head) (haz : a ≠ z) (hb : h.get b = some ⟨some z, u⟩)
    (hz : h.get z = some ⟨next, v⟩) : Leads (h.set b ⟨next, u⟩) a head := by
  induction hl with
  | here => exact .here
  | @next c link hget _ ih =>
    by_cases hcb : c = b
    · -- the links went on to `z`, and now go on where `z` does
      subst hcb
      rw [hb] at hget
      obtain rfl := Option.some.inj hget
      by_cases hzc : z = c
      · exact hzc ▸ ih
      · have hrest := ih.step haz ((Heap.get_set_of_ne ⟨next, u⟩ hzc).trans hz)
        exact .next (Heap.get_set_self _ hb) hrest
    · exact .next ((Heap.get_set_of_ne _ hcb).trans hget) ih
  | @freed c hlt hget =>
    refine .freed hlt ((Heap.get_set_of_ne _ ?_).trans hget)
    rintro rfl
    rw [hb] at hget
    exact Option.some_ne_none _ hget

end Leads

/-! ## The links of the others -/

/-- Between two states of a heap with a list on it, the links that carry anything but `v`
are the same, the same of them are on the list, and whoever was led to one still is. -/
structure OthersKept (h : Heap (Link α)) (l : List (ℕ × α)) (h' : Heap (Link α))
    (l' : List (ℕ × α)) (v : α) : Prop where
  carries : ∀ {a u}, u ≠ v → (Carries h' a u ↔ Carries h a u)
  mem : ∀ {a u}, u ≠ v → ((a, u) ∈ l' ↔ (a, u) ∈ l)
  leads : ∀ {a u head}, u ≠ v → Carries h a u → Leads h a head → Leads h' a head

namespace OthersKept

theorem refl (h : Heap (Link α)) (l : List (ℕ × α)) (v : α) : OthersKept h l h l v :=
  ⟨fun _ => Iff.rfl, fun _ => Iff.rfl, fun _ _ hl => hl⟩

theorem push (h : Heap (Link α)) (l : List (ℕ × α)) (head : Option ℕ) (v : α) :
    OthersKept h l (h.alloc ⟨head, v⟩) ((h.next, v) :: l) v := by
  refine ⟨fun hne => ?_, fun hne => ?_, fun _ _ hl => hl.alloc _⟩
  · rw [carries_alloc]
    exact or_iff_right fun hnew => hne hnew.2
  · rw [List.mem_cons]
    exact or_iff_right fun heq => hne (congrArg Prod.snd heq)

/-- A list without one of its links. -/
theorem mem_remove {k : List (ℕ × α)} (hne : u ≠ v) :
    (a, u) ∈ k ++ l ↔ (a, u) ∈ k ++ (b, v) :: l := by
  have hother : (a, u) ≠ (b, v) := fun heq => hne (congrArg Prod.snd heq)
  rw [List.mem_append, List.mem_append, List.mem_cons, or_iff_right hother]

theorem pop (h : Heap (Link α)) (l : List (ℕ × α)) (a : ℕ) (v : α) :
    OthersKept h ((a, v) :: l) h l v :=
  ⟨fun _ => Iff.rfl, mem_remove (k := []), fun _ _ hl => hl⟩

theorem unlink {l₁ l₂ : List (ℕ × α)} (hb : h.get b = some ⟨some a, u⟩)
    (ha : h.get a = some ⟨next, v⟩) :
    OthersKept h (l₁ ++ (a, v) :: l₂) (h.set b ⟨next, u⟩) (l₁ ++ l₂) v := by
  refine ⟨fun _ => carries_set hb, mem_remove, fun hne hcarries hl => hl.unlink ?_ hb ha⟩
  rintro rfl
  exact hne (hcarries.unique ⟨next, ha⟩)

theorem free (l : List (ℕ × α)) (ha : Carries h a v) : OthersKept h l (h.free a) l v := by
  have hother : ∀ {b u}, u ≠ v → Carries h b u → b ≠ a := by
    rintro b u hne hb rfl
    exact hne (hb.unique ha)
  refine ⟨fun hne => ?_, fun _ => Iff.rfl, fun hne hb hl => hl.free (hother hne hb)⟩
  rw [carries_free]
  exact and_iff_right_of_imp (hother hne)

end OthersKept

end MmoBackend
