import MmoBackend.Library.Exec
import MmoBackend.Library.LinkedList

/-!
# `linked-list.c`: building a list and going through it

A list is built by `link_add_first` and by `link_add_next` on its last link.  There are three
ways to go through it.  The loops of `map.c` go on while there is a link.  `link_map` and
`link_contains` go on while the link has a successor, and so they leave the loop at the last
link without having looked at it.

`traversal_reaches_iff` says what this comes to: `link_contains` is wrong exactly about the
payload that only the last link has, and `link_map` leaves out a link of every list but the
empty one.
-/

namespace MmoBackend
namespace Structures

open Exec

/-- A `void *`. -/
abbrev Payload := Option ℕ

/-! ## Building -/

/-- Write through a pointer to a link. -/
def writeLink (a : ℕ) (f : Link Payload → Link Payload) : Exec (Heap (Link Payload)) Unit := do
  let h ← get
  let link ← need (h.get a)
  modify fun h => h.set a (f link)

/-- `link_create`. -/
def linkCreate : Exec (Heap (Link Payload)) ℕ := do
  let h ← get
  modify fun h => h.alloc ⟨none, none⟩
  pure h.next

/-- `link_add_first`. -/
def linkAddFirst (head : Option ℕ) (payload : Payload) : Exec (Heap (Link Payload)) ℕ := do
  let newNode ← linkCreate
  writeLink newNode fun link => { link with payload := payload }
  writeLink newNode fun link => { link with next := head }
  pure newNode

/-- `link_add_next`. -/
def linkAddNext (head : Option ℕ) (payload : Payload) : Exec (Heap (Link Payload)) ℕ := do
  let newNode ← linkCreate
  writeLink newNode fun link => { link with payload := payload }
  match head with
  | none => pure newNode
  | some head => do
    writeLink head fun link => { link with next := some newNode }
    pure newNode

/-- The first and the last link of a list. -/
structure Ends where
  head : Option ℕ
  tail : Option ℕ

/-- The list from `head` on has a link at `a` with this payload. -/
def HasLink (h : Heap (Link Payload)) (head : Option ℕ) (a : ℕ) (payload : Payload) : Prop :=
  ∃ l, Chain h head l ∧ (a, payload) ∈ l

/-- A list that is built by the two functions, in any memory.  In between, whatever leaves
the links of the list alone may be done. -/
inductive Built : Heap (Link Payload) → Ends → Prop
  | empty (h : Heap (Link Payload)) : Built h ⟨none, none⟩
  | addFirst {h h' : Heap (Link Payload)} {head tail : Option ℕ} {payload : Payload} {a : ℕ} :
      Built h ⟨head, tail⟩ → linkAddFirst head payload h = .ok (a, h') →
      Built h' ⟨some a, tail.or (some a)⟩
  | addNext {h h' : Heap (Link Payload)} {head tail : Option ℕ} {payload : Payload} {a : ℕ} :
      Built h ⟨head, tail⟩ → linkAddNext tail payload h = .ok (a, h') →
      Built h' ⟨head.or (some a), some a⟩
  | other {h h' : Heap (Link Payload)} {ends : Ends} :
      Built h ends → (∀ a payload, HasLink h ends.head a payload → h'.get a = h.get a) →
      Built h' ends

/-! ## Going through it

The loops do not write.  They are run in a memory `σ` that has the links in it and whatever
else the function that `link_map` calls works on. -/

section Loops

variable {σ : Type} (links : σ → Heap (Link Payload))

/-- Read through a pointer to a link. -/
def readLink (cur : Option ℕ) : Exec σ (Link Payload) := do
  let s ← get
  let a ← need cur
  need ((links s).get a)

/-- `link_next`. -/
def linkNext (cur : Option ℕ) : Exec σ (Option ℕ) := do
  let link ← readLink links cur
  if link.next.isSome then pure link.next else pure none

/-- `link_has_next`. -/
def linkHasNext (cur : Option ℕ) : Exec σ ℤ :=
  if cur = none then pure 0
  else do
    let link ← readLink links cur
    pure (if link.next = none then 0 else 1)

/-- The loop of `link_map`. -/
def mapLoop (func : Payload → Exec σ Unit) : ℕ → Option ℕ → Exec σ Unit
  | 0, _ => stop .fuel
  | fuel + 1, head => do
    let more ← linkHasNext links head
    if more = 0 then pure ()
    else do
      let link ← readLink links head
      func link.payload
      let next ← linkNext links head
      mapLoop func fuel next

/-- `link_map`. -/
def linkMap (fuel : ℕ) (head : Option ℕ) (func : Payload → Exec σ Unit) : Exec σ Unit :=
  if head = none then pure () else mapLoop links func fuel head

/-- The loop of `link_contains`. -/
def containsLoop (item : Payload) : ℕ → Option ℕ → Exec σ ℤ
  | 0, _ => stop .fuel
  | fuel + 1, head => do
    let more ← linkHasNext links head
    if more = 0 then pure 0
    else do
      let link ← readLink links head
      if link.payload = item then pure 1
      else do
        let next ← linkNext links head
        containsLoop item fuel next

/-- `link_contains`. -/
def linkContains (fuel : ℕ) (head : Option ℕ) (item : Payload) : Exec σ ℤ :=
  if head = none then pure 0 else containsLoop links item fuel head

/-- The loops of `map.c`, `for(link=head;link;link=link_next(link))`, with a body that uses the
payload. -/
def forLinks (body : Payload → Exec σ Unit) : ℕ → Option ℕ → Exec σ Unit
  | 0, _ => stop .fuel
  | fuel + 1, cur =>
    if cur = none then pure ()
    else do
      let link ← readLink links cur
      body link.payload
      let next ← linkNext links cur
      forLinks body fuel next

end Loops

/-! ## The lists that are built -/

section Build

variable {h h' : Heap (Link Payload)} {head next : Option ℕ} {a b : ℕ} {payload u : Payload}
  {ends : Ends}

theorem writeLink_eq {link : Link Payload} (hget : h.get a = some link)
    (f : Link Payload → Link Payload) : writeLink a f h = .ok ((), h.set a (f link)) := by
  rw [writeLink, get_bind, hget, need_some_bind]
  rfl

/-- Both functions start with a new link that carries the payload. -/
theorem bind_newLink {α : Type} (payload : Payload) (f : ℕ → Exec (Heap (Link Payload)) α)
    (h : Heap (Link Payload)) :
    (do
      let newNode ← linkCreate
      writeLink newNode fun link => { link with payload := payload }
      f newNode) h = f h.next (h.alloc ⟨none, payload⟩) := by
  have hcreate : linkCreate h = .ok (h.next, h.alloc ⟨none, none⟩) := rfl
  rw [bind_of_ok hcreate, bind_of_ok (writeLink_eq (h.get_alloc_next _) _), Heap.set_alloc]

/-- A new link in front. -/
theorem linkAddFirst_eq (head : Option ℕ) (payload : Payload) (h : Heap (Link Payload)) :
    linkAddFirst head payload h = .ok (h.next, h.alloc ⟨head, payload⟩) := by
  rw [linkAddFirst, bind_newLink, bind_of_ok (writeLink_eq (h.get_alloc_next _) _), Heap.set_alloc]
  rfl

/-- A list of one link. -/
theorem linkAddNext_none (payload : Payload) (h : Heap (Link Payload)) :
    linkAddNext none payload h = .ok (h.next, h.alloc ⟨none, payload⟩) := by
  rw [linkAddNext, bind_newLink]
  rfl

/-- A new link behind the link at `b`. -/
theorem linkAddNext_some (hb : h.get b = some ⟨next, u⟩) (payload : Payload) :
    linkAddNext (some b) payload h
      = .ok (h.next, (h.alloc ⟨none, payload⟩).set b ⟨some h.next, u⟩) := by
  rw [linkAddNext, bind_newLink]
  dsimp only
  rw [bind_of_ok (writeLink_eq (Heap.get_alloc_of_get _ hb) _)]
  rfl

/-- **What has been built is a list**, with its last link at the tail. -/
theorem Built.chain (hbuilt : Built h ends) :
    ∃ l, Chain h ends.head l ∧ ends.tail = l.getLast?.map Prod.fst := by
  induction hbuilt with
  | empty => exact ⟨[], .nil, rfl⟩
  | @addFirst h h' head tail payload a _ hcall ih =>
    obtain ⟨l, hl, htail⟩ := ih
    rw [linkAddFirst_eq] at hcall
    obtain ⟨rfl, rfl⟩ := Prod.mk.inj (Except.ok.inj hcall)
    refine ⟨_, hl.push payload, ?_⟩
    dsimp only at htail ⊢
    rw [htail, List.getLast?_cons]
    cases l.getLast? <;> rfl
  | @addNext h h' head tail payload a _ hcall ih =>
    obtain ⟨l, hl, htail⟩ := ih
    dsimp only at hl htail ⊢
    rcases List.eq_nil_or_concat' l with rfl | ⟨l, ⟨b, u⟩, rfl⟩
    · obtain rfl : tail = none := htail
      rw [linkAddNext_none] at hcall
      obtain ⟨rfl, rfl⟩ := Prod.mk.inj (Except.ok.inj hcall)
      obtain rfl : head = none := hl.head_eq
      exact ⟨_, hl.push payload, rfl⟩
    · obtain rfl : tail = some b := by rw [htail, List.getLast?_concat, Option.map_some]
      rw [linkAddNext_some hl.get_last] at hcall
      obtain ⟨rfl, rfl⟩ := Prod.mk.inj (Except.ok.inj hcall)
      rw [hl.or_head]
      exact ⟨_, hl.add_last payload, by rw [List.getLast?_concat, Option.map_some]⟩
  | other _ hkept ih =>
    obtain ⟨l, hl, htail⟩ := ih
    exact ⟨l, hl.congr fun a payload hmem => hkept a payload ⟨l, hl, hmem⟩, htail⟩

end Build

/-! ## What the loops do -/

section Runs

variable {σ : Type} {links : σ → Heap (Link Payload)} {s : σ} {h : Heap (Link Payload)}
  {head next : Option ℕ} {a b fuel : ℕ} {payload item : Payload} {l : List (ℕ × Payload)}
  {func : Payload → Exec σ Unit}

theorem readLink_eq (hget : (links s).get a = some ⟨next, payload⟩) :
    readLink links (some a) s = .ok (⟨next, payload⟩, s) := by
  rw [readLink, get_bind, need_some_bind, hget]
  rfl

theorem linkNext_eq (hget : (links s).get a = some ⟨next, payload⟩) :
    linkNext links (some a) s = .ok (next, s) := by
  rw [linkNext, bind_of_ok (readLink_eq hget)]
  cases next <;> rfl

theorem linkHasNext_eq (hget : (links s).get a = some ⟨next, payload⟩) :
    linkHasNext links (some a) s = .ok (if next = none then 0 else 1, s) := by
  rw [linkHasNext, if_neg (Option.some_ne_none a), bind_of_ok (readLink_eq hget)]
  rfl

/-- A call that leaves the links alone, and what comes after it at the next link. -/
theorem call_next {f : Option ℕ → Exec σ Unit} {g : Exec σ Unit}
    (hfunc : ∀ payload, Within (fun s t => links t = links s) (func payload))
    (hget : (links s).get a = some ⟨next, payload⟩)
    (hrest : ∀ t, links t = links s → f next t = g t) :
    (func payload >>= fun _ => linkNext links (some a) >>= f) s
      = (func payload >>= fun _ => g) s := by
  cases hcall : func payload s with
  | error e => rw [bind_of_error hcall, bind_of_error hcall]
  | ok r =>
    obtain ⟨⟨⟩, t⟩ := r
    have ht := hfunc payload s () t hcall
    rw [bind_of_ok hcall, bind_of_ok hcall, bind_of_ok (linkNext_eq (by rwa [ht]))]
    exact hrest t ht

/-- `link_map` does not call the function with the payload of the last link. -/
theorem mapLoop_last (hget : (links s).get a = some ⟨none, payload⟩) (fuel : ℕ) :
    mapLoop links func (fuel + 1) (some a) s = .ok ((), s) := by
  rw [mapLoop, bind_of_ok (linkHasNext_eq hget), if_pos rfl, if_pos rfl]
  rfl

theorem mapLoop_next (hget : (links s).get a = some ⟨some b, payload⟩) (fuel : ℕ) :
    mapLoop links func (fuel + 1) (some a) s = (func payload >>= fun _ =>
      linkNext links (some a) >>= mapLoop links func fuel) s := by
  rw [mapLoop, bind_of_ok (linkHasNext_eq hget), if_neg (Option.some_ne_none b),
    if_neg Int.one_ne_zero, bind_of_ok (readLink_eq hget)]

/-- `link_contains` does not compare the payload of the last link. -/
theorem containsLoop_last (hget : (links s).get a = some ⟨none, payload⟩) (item : Payload)
    (fuel : ℕ) : containsLoop links item (fuel + 1) (some a) s = .ok (0, s) := by
  rw [containsLoop, bind_of_ok (linkHasNext_eq hget), if_pos rfl, if_pos rfl]
  rfl

theorem containsLoop_next (hget : (links s).get a = some ⟨some b, payload⟩) (item : Payload)
    (fuel : ℕ) : containsLoop links item (fuel + 1) (some a) s
      = if payload = item then .ok (1, s) else containsLoop links item fuel (some b) s := by
  rw [containsLoop, bind_of_ok (linkHasNext_eq hget), if_neg (Option.some_ne_none b),
    if_neg Int.one_ne_zero, bind_of_ok (readLink_eq hget)]
  dsimp only
  split
  · rfl
  · rw [bind_of_ok (linkNext_eq hget)]

/-- **`link_contains` finds** what a link in front of the last one has. -/
theorem linkContains_eq (hl : Chain (links s) head l) (item : Payload) (hfuel : l.length ≤ fuel) :
    linkContains links fuel head item s
      = .ok (if item ∈ (l.map Prod.snd).dropLast then 1 else 0, s) := by
  generalize hs : links s = h at hl
  rw [linkContains]
  induction hl generalizing fuel with
  | nil => rfl
  | @cons a next payload l hget hrest ih =>
    rw [List.length_cons] at hfuel
    obtain ⟨fuel, rfl⟩ := Nat.exists_eq_succ_of_ne_zero (show fuel ≠ 0 by omega)
    rw [← hs] at hget
    rw [if_neg (Option.some_ne_none a)]
    cases next with
    | none =>
      obtain rfl := hrest.eq_nil
      exact containsLoop_last hget item fuel
    | some b =>
      have hloop := ih (Nat.le_of_succ_le_succ hfuel)
      obtain ⟨u, l, rfl⟩ := hrest.exists_cons
      have hdrop : (((a, payload) :: (b, u) :: l).map Prod.snd).dropLast
          = payload :: (((b, u) :: l).map Prod.snd).dropLast := rfl
      rw [if_neg (Option.some_ne_none b)] at hloop
      rw [containsLoop_next hget, hloop, hdrop]
      by_cases hitem : payload = item
      · rw [if_pos hitem, if_pos (List.mem_cons.mpr (Or.inl hitem.symm))]
      · simp only [if_neg hitem, List.mem_cons, or_iff_right (Ne.symm hitem)]

/-- **`link_map` calls the function** with the payloads of the links in front of the last one,
in order, if the function leaves the links alone. -/
theorem linkMap_eq (hfunc : ∀ payload, Within (fun s t => links t = links s) (func payload))
    (hl : Chain (links s) head l) (hfuel : l.length ≤ fuel) :
    linkMap links fuel head func s = forEach (l.map Prod.snd).dropLast func s := by
  generalize hs : links s = h at hl
  rw [linkMap]
  induction hl generalizing fuel s with
  | nil => rfl
  | @cons a next payload l hget hrest ih =>
    rw [List.length_cons] at hfuel
    obtain ⟨fuel, rfl⟩ := Nat.exists_eq_succ_of_ne_zero (show fuel ≠ 0 by omega)
    rw [← hs] at hget
    rw [if_neg (Option.some_ne_none a)]
    cases next with
    | none =>
      obtain rfl := hrest.eq_nil
      exact mapLoop_last hget fuel
    | some b =>
      obtain ⟨u, l, rfl⟩ := hrest.exists_cons
      have hdrop : (((a, payload) :: (b, u) :: l).map Prod.snd).dropLast
          = payload :: (((b, u) :: l).map Prod.snd).dropLast := rfl
      rw [mapLoop_next hget, hdrop, forEach_cons]
      refine call_next hfunc hget fun t ht => ?_
      have hloop := ih (Nat.le_of_succ_le_succ hfuel) (ht.trans hs)
      rwa [if_neg (Option.some_ne_none b)] at hloop

/-- The loops of `map.c` run their body with the payloads of all links, in order. -/
theorem forLinks_eq (hfunc : ∀ payload, Within (fun s t => links t = links s) (func payload))
    (hl : Chain (links s) head l) (hfuel : l.length < fuel) :
    forLinks links func fuel head s = forEach (l.map Prod.snd) func s := by
  generalize hs : links s = h at hl
  induction hl generalizing fuel s with
  | nil =>
    obtain ⟨fuel, rfl⟩ := Nat.exists_eq_succ_of_ne_zero (Nat.ne_of_gt hfuel)
    rw [forLinks, if_pos rfl]
    rfl
  | @cons a next payload l hget hrest ih =>
    rw [List.length_cons] at hfuel
    obtain ⟨fuel, rfl⟩ := Nat.exists_eq_succ_of_ne_zero (Nat.ne_zero_of_lt hfuel)
    rw [← hs] at hget
    rw [forLinks, if_neg (Option.some_ne_none a), bind_of_ok (readLink_eq hget), List.map_cons,
      forEach_cons]
    exact call_next hfunc hget fun t ht => ih (Nat.lt_of_succ_lt_succ hfuel) (ht.trans hs)

end Runs

/-! ## What they should do -/

/-- `link_contains` returns, and it returns 1 if a link has the item and only then. -/
def ContainsRight (h : Heap (Link Payload)) (head : Option ℕ) (item : Payload) : Prop :=
  ∀ {σ : Type} (links : σ → Heap (Link Payload)) (s : σ), links s = h →
    ∃ n r, (∀ fuel, n ≤ fuel → linkContains links fuel head item s = .ok (r, s)) ∧
      (r = 1 ↔ ∃ a, HasLink h head a item)

/-- `link_map` comes down to the calls of the function with the payloads of all links, one
after the other, whatever the function does, as long as it leaves the links alone. -/
def MapsRight (h : Heap (Link Payload)) (head : Option ℕ) : Prop :=
  ∀ {σ : Type} (links : σ → Heap (Link Payload)) (func : Payload → Exec σ Unit) (s : σ),
    links s = h → (∀ payload, Within (fun s t => links t = links s) (func payload)) →
    ∀ l, Chain h head l →
      ∃ n, ∀ fuel, n ≤ fuel → linkMap links fuel head func s = forEach (l.map Prod.snd) func s

/-- The last link has the item, and no other link has it. -/
def OnlyLast (h : Heap (Link Payload)) (head : Option ℕ) (item : Payload) : Prop :=
  ∃ l a, Chain h head (l ++ [(a, item)]) ∧ item ∉ l.map Prod.snd

section Right

variable {h : Heap (Link Payload)} {head : Option ℕ} {item : Payload} {l : List (ℕ × Payload)}
  {ends : Ends}

theorem exists_hasLink_iff (hl : Chain h head l) :
    (∃ a, HasLink h head a item) ↔ item ∈ l.map Prod.snd := by
  constructor
  · rintro ⟨a, l', hl', hmem⟩
    obtain rfl := hl.unique hl'
    exact List.mem_map_of_mem hmem
  · intro hmem
    obtain ⟨⟨a, payload⟩, hlink, rfl⟩ := List.mem_map.mp hmem
    exact ⟨a, l, hl, hlink⟩

theorem onlyLast_iff (hl : Chain h head l) :
    OnlyLast h head item ↔ item ∈ l.map Prod.snd ∧ item ∉ (l.map Prod.snd).dropLast := by
  constructor
  · rintro ⟨k, a, hk, hnot⟩
    obtain rfl := hl.unique hk
    rw [List.map_append, List.map_singleton, List.dropLast_concat]
    exact ⟨List.mem_append_right _ List.mem_cons_self, hnot⟩
  · rintro ⟨hmem, hnot⟩
    rcases List.eq_nil_or_concat' l with rfl | ⟨k, ⟨a, payload⟩, rfl⟩
    · exact absurd hmem List.not_mem_nil
    · rw [List.map_append, List.map_singleton] at hmem hnot
      rw [List.dropLast_concat] at hnot
      rcases List.mem_append.mp hmem with hmem | hmem
      · exact absurd hmem hnot
      · obtain rfl := List.mem_singleton.mp hmem
        exact ⟨k, a, hl, hnot⟩

/-- **When `link_contains` is right.** -/
theorem containsRight_iff (hl : Chain h head l) :
    ContainsRight h head item ↔ ¬OnlyLast h head item := by
  rw [onlyLast_iff hl]
  constructor
  · rintro hright ⟨hmem, hnot⟩
    obtain ⟨n, r, hrun, hfound⟩ := hright id h rfl
    have hone : r = 1 := hfound.mpr ((exists_hasLink_iff hl).mpr hmem)
    have hzero : linkContains id (max n l.length) head item h
        = .ok (if item ∈ (l.map Prod.snd).dropLast then 1 else 0, h) :=
      linkContains_eq hl item (le_max_right n l.length)
    rw [hrun _ (le_max_left n l.length), if_neg hnot, hone] at hzero
    exact absurd (congrArg Prod.fst (Except.ok.inj hzero)) Int.one_ne_zero
  · rintro hright σ links s rfl
    refine ⟨l.length, _, fun fuel hfuel => linkContains_eq hl item hfuel, ?_⟩
    rw [exists_hasLink_iff hl]
    by_cases hmem : item ∈ (l.map Prod.snd).dropLast
    · rw [if_pos hmem]
      exact iff_of_true rfl ((List.dropLast_sublist _).subset hmem)
    · rw [if_neg hmem]
      exact iff_of_false Int.zero_ne_one fun hin => hright ⟨hin, hmem⟩

/-- A function that writes down what it is called with. -/
def record (payload : Payload) : Exec (Heap (Link Payload) × List Payload) Unit :=
  modify fun s => (s.1, s.2 ++ [payload])

theorem within_record (payload : Payload) :
    Within (fun s t => t.1 = s.1) (record payload) := by
  intro s u t hcall
  obtain rfl := modify_eq_ok.mp hcall
  rfl

theorem forEach_record (payloads seen : List Payload) (h : Heap (Link Payload)) :
    forEach payloads record (h, seen) = .ok ((), (h, seen ++ payloads)) := by
  induction payloads generalizing seen with
  | nil => rw [List.append_nil]; rfl
  | cons payload payloads ih =>
    have hcall : record payload (h, seen) = .ok ((), (h, seen ++ [payload])) := rfl
    rw [forEach_cons, bind_of_ok hcall, ih, List.append_assoc, List.singleton_append]

/-- **When `link_map` is right.** -/
theorem mapsRight_iff (hl : Chain h head l) : MapsRight h head ↔ head = none := by
  constructor
  · intro hright
    obtain ⟨n, hrun⟩ := hright Prod.fst record (h, []) rfl within_record l hl
    have hcalled : linkMap Prod.fst (max n l.length) head record (h, [])
        = forEach (l.map Prod.snd).dropLast record (h, []) :=
      linkMap_eq within_record hl (le_max_right n l.length)
    have hall := hrun (max n l.length) (le_max_left n l.length)
    rw [hcalled, forEach_record, forEach_record, List.nil_append, List.nil_append] at hall
    have hcalls : (l.map Prod.snd).dropLast = l.map Prod.snd :=
      congrArg (fun r => r.2.2) (Except.ok.inj hall)
    have hlength := congrArg List.length hcalls
    rw [List.length_dropLast, List.length_map] at hlength
    have hnil : l = [] := List.length_eq_zero_iff.mp (by omega)
    rw [hl.head_eq, hnil]
    rfl
  · rintro rfl σ links func s rfl hfunc k hk
    obtain rfl := hk.eq_nil
    exact ⟨0, fun fuel _ => rfl⟩

/-- **How far the two functions reach.**  Of every list that is built and every item,
`link_contains` says whether it is there unless only the last link has it, and `link_map`
reaches all links of the empty list only. -/
theorem traversal_reaches_iff (hbuilt : Built h ends) (item : Payload) :
    (ContainsRight h ends.head item ↔ ¬OnlyLast h ends.head item) ∧
      (MapsRight h ends.head ↔ ends.head = none) := by
  obtain ⟨l, hl, -⟩ := hbuilt.chain
  exact ⟨containsRight_iff hl, mapsRight_iff hl⟩

end Right

/-- A list of one link. -/
def oneLink : Heap (Link Payload) := Heap.empty.alloc ⟨none, some 7⟩

theorem built_oneLink : Built oneLink ⟨some 0, some 0⟩ :=
  .addNext (.empty Heap.empty) (linkAddNext_none (some 7) Heap.empty)

/-- Of two links the first is found, and the other one is not reached. -/
theorem traversal_reaches_iff_first :
    Built (oneLink.alloc ⟨some 0, some 9⟩) ⟨some 1, some 0⟩ ∧
      ContainsRight (oneLink.alloc ⟨some 0, some 9⟩) (some 1) (some 9) ∧
      ¬MapsRight (oneLink.alloc ⟨some 0, some 9⟩) (some 1) := by
  have hbuilt : Built (oneLink.alloc ⟨some 0, some 9⟩) ⟨some 1, some 0⟩ :=
    .addFirst built_oneLink (linkAddFirst_eq (some 0) (some 9) oneLink)
  obtain ⟨hcontains, hmaps⟩ := traversal_reaches_iff hbuilt (some 9)
  refine ⟨hbuilt, hcontains.mpr ?_, fun hright => Option.some_ne_none 1 (hmaps.mp hright)⟩
  -- the last link carries 7
  rintro ⟨l, a, hl, -⟩
  obtain ⟨-, hlink⟩ | ⟨-, hget⟩ := Heap.get_alloc_eq_some hl.get_last
  · cases hlink
  obtain ⟨-, hlink⟩ | ⟨-, hget⟩ := Heap.get_alloc_eq_some hget
  · cases hlink
  · cases hget

/-- **The only link of a list** is neither found nor reached. -/
theorem traversal_misses_only_link : Built oneLink ⟨some 0, some 0⟩ ∧
    ¬ContainsRight oneLink (some 0) (some 7) ∧ ¬MapsRight oneLink (some 0) := by
  have hl : Chain oneLink (some 0) [(0, some 7)] := .cons (Heap.get_alloc_next _ _) .nil
  refine ⟨built_oneLink, fun hright => ?_, fun hright => ?_⟩
  · exact (containsRight_iff hl).mp hright ⟨[], 0, hl, List.not_mem_nil⟩
  · exact Option.some_ne_none 0 ((mapsRight_iff hl).mp hright)

end Structures
end MmoBackend
