import Mathlib.Data.List.Nodup
import MmoBackend.Library.LinkedList
import MmoBackend.Library.Trace

/-!
# Requests that share the list of the players of a map

Every connection has a thread of its own, and the threads add players to a map and remove
them with `map_add_player` and `map_remove_player`.  Neither takes a lock: the head of the
list is read before it is written, and the links around a player are read before the list is
closed behind them.  What another thread writes in between is lost.

The state is the list in memory, the request each session is running, with how far it has
come, and for every player whether the last completed request added it.  Each read and each
write of the list is a step.  `complete_of_current` says that the list comes out right where
every write finds the list as the request has read it; `not_complete_interleaved` is two
players who arrive at once.

The packets that a removal sends, and the reference counts of the players, are left out.
-/

namespace MmoBackend
namespace Maps

variable {S P : Type}

/-- What a request does with the pointer that `link_next` returns. -/
inductive NextUse where
  /-- The search of `map_remove_player` goes on there. -/
  | search
  /-- The link `prev`, or the head of the list, is made to point there. -/
  | relink (prev : Option ℕ)
  /-- The loop that tells the others goes on there. -/
  | tell
  deriving DecidableEq

/-- How far a request has come. -/
inductive RequestStage where
  /-- `link_add_first` was given the head of the list. -/
  | adding (head : Option ℕ)
  /-- The search has come to `link`, after `prev`. -/
  | looking (prev link : Option ℕ)
  /-- `link_next` is called with `link`. -/
  | testing (use : NextUse) (link : ℕ)
  /-- `link_next` has found that there is a next link, and reads it again. -/
  | passing (use : NextUse) (link : ℕ)
  /-- `link` is to be taken out: the list is about to be closed with `next`. -/
  | relinking (prev : Option ℕ) (link : ℕ) (next : Option ℕ)
  /-- The list is closed, and `player_free` is to be called. -/
  | unlinked (link : ℕ)
  /-- `link_free` is to be called. -/
  | freeing (link : ℕ)
  /-- The player is removed. -/
  | leaving
  /-- The loop that tells the others has come to `link`. -/
  | telling (link : Option ℕ)
  deriving DecidableEq

/-- Where the request goes on when `link_next` has returned. -/
def NextUse.after (link : ℕ) (next : Option ℕ) : NextUse → RequestStage
  | search => .looking (some link) next
  | relink prev => .relinking prev link next
  | tell => .telling next

/-- The list of the players of a map, and the requests of the sessions. -/
structure PlayerList (S P : Type) where
  /-- `map->players`. -/
  players : Option ℕ
  links : Heap (Link P)
  /-- The player a session's request is about, and how far it has come. -/
  request : S → Option (P × RequestStage)
  /-- Whether the last completed request for a player added it. -/
  added : P → Bool

namespace PlayerList

/-- A map nobody is on. -/
def init : PlayerList S P := ⟨none, Heap.empty, fun _ => none, fun _ => false⟩

variable [DecidableEq S] [DecidableEq P]

/-- The request of a session, about the player `p`, comes to a stage. -/
def goOn (s : PlayerList S P) (i : S) (p : P) (stage : RequestStage) : PlayerList S P :=
  { s with request := Function.update s.request i (some (p, stage)) }

/-- The request of a session, about the player `p`, is completed. -/
def finish (s : PlayerList S P) (i : S) (p : P) (b : Bool) : PlayerList S P :=
  { s with request := Function.update s.request i none, added := Function.update s.added p b }

omit [DecidableEq S] [DecidableEq P] in
/-- What a session does next. -/
inductive Action (S P : Type) where
  /-- It calls `map_add_player`. -/
  | add (i : S) (p : P)
  /-- It calls `map_remove_player`. -/
  | remove (i : S) (p : P)
  /-- Its request goes on. -/
  | go (i : S)

/-- The steps of the requests, in any order.  A step that uses a freed link does not
return. -/
inductive Step : PlayerList S P → Action S P → PlayerList S P → Prop
  | add {s : PlayerList S P} {i : S} {p : P} :
      s.request i = none → Step s (.add i p) (s.goOn i p (.adding s.players))
  | addFirst {s : PlayerList S P} {i : S} {p : P} {head : Option ℕ} :
      s.request i = some (p, .adding head) →
      Step s (.go i) (finish
        { s with players := some s.links.next, links := s.links.alloc ⟨head, p⟩ } i p true)
  | remove {s : PlayerList S P} {i : S} {p : P} :
      s.request i = none → Step s (.remove i p) (s.goOn i p (.looking none s.players))
  | notFound {s : PlayerList S P} {i : S} {p : P} {prev : Option ℕ} :
      s.request i = some (p, .looking prev none) → Step s (.go i) (s.finish i p false)
  | differs {s : PlayerList S P} {i : S} {p : P} {prev : Option ℕ} {c : ℕ} {link : Link P} :
      s.request i = some (p, .looking prev (some c)) → s.links.get c = some link →
      link.payload ≠ p → Step s (.go i) (s.goOn i p (.testing .search c))
  | found {s : PlayerList S P} {i : S} {p : P} {prev : Option ℕ} {c : ℕ} {link : Link P} :
      s.request i = some (p, .looking prev (some c)) → s.links.get c = some link →
      link.payload = p → Step s (.go i) (s.goOn i p (.testing (.relink prev) c))
  | last {s : PlayerList S P} {i : S} {p : P} {use : NextUse} {c : ℕ} {link : Link P} :
      s.request i = some (p, .testing use c) → s.links.get c = some link →
      link.next = none → Step s (.go i) (s.goOn i p (use.after c none))
  | more {s : PlayerList S P} {i : S} {p : P} {use : NextUse} {c : ℕ} {link : Link P} :
      s.request i = some (p, .testing use c) → s.links.get c = some link →
      link.next ≠ none → Step s (.go i) (s.goOn i p (.passing use c))
  | next {s : PlayerList S P} {i : S} {p : P} {use : NextUse} {c : ℕ} {link : Link P} :
      s.request i = some (p, .passing use c) → s.links.get c = some link →
      Step s (.go i) (s.goOn i p (use.after c link.next))
  | relinkHead {s : PlayerList S P} {i : S} {p : P} {c : ℕ} {next : Option ℕ} :
      s.request i = some (p, .relinking none c next) →
      Step s (.go i) (goOn { s with players := next } i p (.unlinked c))
  | relinkPrev {s : PlayerList S P} {i : S} {p : P} {b c : ℕ} {next : Option ℕ}
      {link : Link P} :
      s.request i = some (p, .relinking (some b) c next) → s.links.get b = some link →
      Step s (.go i)
        (goOn { s with links := s.links.set b ⟨next, link.payload⟩ } i p (.unlinked c))
  | release {s : PlayerList S P} {i : S} {p : P} {c : ℕ} {link : Link P} :
      s.request i = some (p, .unlinked c) → s.links.get c = some link →
      Step s (.go i) (s.goOn i p (.freeing c))
  | free {s : PlayerList S P} {i : S} {p : P} {c : ℕ} {link : Link P} :
      s.request i = some (p, .freeing c) → s.links.get c = some link →
      Step s (.go i) (goOn { s with links := s.links.free c } i p .leaving)
  | tellFirst {s : PlayerList S P} {i : S} {p : P} :
      s.request i = some (p, .leaving) → Step s (.go i) (s.goOn i p (.telling s.players))
  | tell {s : PlayerList S P} {i : S} {p : P} {c : ℕ} {link : Link P} :
      s.request i = some (p, .telling (some c)) → s.links.get c = some link →
      Step s (.go i) (s.goOn i p (.testing .tell c))
  | told {s : PlayerList S P} {i : S} {p : P} :
      s.request i = some (p, .telling none) → Step s (.go i) (s.finish i p false)

/-- The list holds each player that was added and not removed exactly once, and no
other. -/
def Complete (s : PlayerList S P) : Prop :=
  ∃ l, Chain s.links s.players l ∧ (l.map Prod.snd).Nodup ∧
    ∀ p, p ∈ l.map Prod.snd ↔ s.added p = true

/-- No request about the player is running. -/
def Free (s : PlayerList S P) (p : P) : Prop := ∀ i stage, s.request i ≠ some (p, stage)

/-- The link at `c` points to `next`. -/
def PointsTo (s : PlayerList S P) (c : ℕ) (next : Option ℕ) : Prop :=
  (s.links.get c).map Link.next = some next

/-- What a request is about to write is right for the list as it is: the head, and the
links around the one to be taken out, are still those that it has read. -/
def UpToDate (s : PlayerList S P) : RequestStage → Prop
  | .adding head => s.players = head
  | .relinking none c next => s.players = some c ∧ s.PointsTo c next
  | .relinking (some b) c next =>
    (∃ l v, Chain s.links s.players l ∧ (b, v) ∈ l) ∧ s.PointsTo b (some c) ∧ s.PointsTo c next
  | _ => True

/-- A request begins while no other request about its player is running, and does not add a
player who has been added already; and nobody else has written where a request writes since it
read there. -/
def Current (s : PlayerList S P) : Action S P → Prop
  | .add _ p => s.Free p ∧ s.added p = false
  | .remove _ p => s.Free p
  | .go i => ∀ p stage, s.request i = some (p, stage) → s.UpToDate stage

/-! ## The invariant

What a request may rely on is what the other requests keep: they leave the link of its player
alone, and whoever follows the links towards it still gets there. -/

section Player

variable {h h' : Heap (Link P)} {l l' : List (ℕ × P)} {p q : P} {c : ℕ}

omit [DecidableEq P]

/-- The player has no link. -/
def Out (h : Heap (Link P)) (p : P) : Prop := ∀ a, ¬Carries h a p

/-- The player has one link, and it is on the list. -/
def On (h : Heap (Link P)) (l : List (ℕ × P)) (p : P) (a : ℕ) : Prop :=
  (a, p) ∈ l ∧ ∀ b, Carries h b p → b = a

/-- The player has one link, and it has been taken out of the list. -/
def Cut (h : Heap (Link P)) (l : List (ℕ × P)) (p : P) (a : ℕ) : Prop :=
  (a, p) ∉ l ∧ Carries h a p ∧ ∀ b, Carries h b p → b = a

/-- A player no request is about is on the list exactly if it was added. -/
def Settled (h : Heap (Link P)) (l : List (ℕ × P)) (p : P) (b : Bool) : Prop :=
  (b = true ∧ ∃ a, On h l p a) ∨ (b = false ∧ Out h p)

/-- What holds of the player while a request about it is at a stage. -/
def StageOk (h : Heap (Link P)) (l : List (ℕ × P)) (p : P) : RequestStage → Prop
  | .adding _ => Out h p
  | .looking _ cur => (∃ a, On h l p a ∧ Leads h a cur) ∨ Out h p
  | .testing .search c | .passing .search c =>
    (∃ a, On h l p a ∧ Leads h a (some c) ∧ a ≠ c) ∨ Out h p
  | .testing (.relink _) c | .passing (.relink _) c | .relinking _ c _ => On h l p c
  | .unlinked c | .freeing c => Cut h l p c
  | .testing .tell _ | .passing .tell _ | .leaving | .telling _ => Out h p

theorem Out.frame (hp : Out h q) (ho : OthersKept h l h' l' p) (hne : q ≠ p) : Out h' q :=
  fun a ha => hp a ((ho.carries hne).mp ha)

theorem On.frame (hp : On h l q c) (ho : OthersKept h l h' l' p) (hne : q ≠ p) :
    On h' l' q c :=
  ⟨(ho.mem hne).mpr hp.1, fun b hb => hp.2 b ((ho.carries hne).mp hb)⟩

theorem Cut.frame (hp : Cut h l q c) (ho : OthersKept h l h' l' p) (hne : q ≠ p) :
    Cut h' l' q c :=
  ⟨fun hmem => hp.1 ((ho.mem hne).mp hmem), (ho.carries hne).mpr hp.2.1,
    fun b hb => hp.2.2 b ((ho.carries hne).mp hb)⟩

theorem Out.notMem {head : Option ℕ} (hp : Out h p) (hl : Chain h head l) :
    p ∉ l.map Prod.snd := by
  intro hmem
  obtain ⟨⟨a, q⟩, hlink, rfl⟩ := List.mem_map.mp hmem
  exact hp a (hl.carries hlink)

theorem Cut.notMem {head : Option ℕ} (hp : Cut h l p c) (hl : Chain h head l) :
    p ∉ l.map Prod.snd := by
  intro hmem
  obtain ⟨⟨a, q⟩, hlink, rfl⟩ := List.mem_map.mp hmem
  obtain rfl := hp.2.2 a (hl.carries hlink)
  exact hp.1 hlink

theorem Settled.frame {b : Bool} (hp : Settled h l q b) (ho : OthersKept h l h' l' p)
    (hne : q ≠ p) : Settled h' l' q b := by
  obtain ⟨hb, a, hon⟩ | ⟨hb, hout⟩ := hp
  · exact Or.inl ⟨hb, a, hon.frame ho hne⟩
  · exact Or.inr ⟨hb, hout.frame ho hne⟩

theorem StageOk.frame {head : Option ℕ} {stage : RequestStage} (hp : StageOk h l q stage)
    (hl : Chain h head l) (ho : OthersKept h l h' l' p) (hne : q ≠ p) :
    StageOk h' l' q stage := by
  have hleads : ∀ {a cur}, On h l q a → Leads h a cur → Leads h' a cur :=
    fun hon hcur => ho.leads hne (hl.carries hon.1) hcur
  have hsearch : ∀ {c}, (∃ a, On h l q a ∧ Leads h a (some c) ∧ a ≠ c) ∨ Out h q →
      (∃ a, On h' l' q a ∧ Leads h' a (some c) ∧ a ≠ c) ∨ Out h' q := by
    rintro c (⟨a, hon, hcur, hac⟩ | hout)
    · exact Or.inl ⟨a, hon.frame ho hne, hleads hon hcur, hac⟩
    · exact Or.inr (hout.frame ho hne)
  cases stage with
  | adding _ => exact Out.frame hp ho hne
  | looking _ cur =>
    obtain ⟨a, hon, hcur⟩ | hout := hp
    · exact Or.inl ⟨a, hon.frame ho hne, hleads hon hcur⟩
    · exact Or.inr (hout.frame ho hne)
  | testing use _ | passing use _ =>
    cases use with
    | search => exact hsearch hp
    | relink _ => exact On.frame hp ho hne
    | tell => exact Out.frame hp ho hne
  | relinking _ _ _ => exact On.frame hp ho hne
  | unlinked _ | freeing _ => exact Cut.frame hp ho hne
  | leaving => exact Out.frame hp ho hne
  | telling _ => exact Out.frame hp ho hne

theorem stageOk_passing {use : NextUse} :
    StageOk h l p (.passing use c) ↔ StageOk h l p (.testing use c) := by
  cases use <;> exact Iff.rfl

/-- `link_next` leads the search on. -/
theorem StageOk.after {use : NextUse} {link : Link P} (hp : StageOk h l p (.testing use c))
    (hc : h.get c = some link) : StageOk h l p (use.after c link.next) := by
  cases use with
  | search =>
    obtain ⟨a, hon, hcur, hac⟩ | hout := hp
    · exact Or.inl ⟨a, hon, hcur.step hac hc⟩
    · exact Or.inr hout
  | relink _ => exact hp
  | tell => exact hp

/-- The search finds the link of the player. -/
theorem StageOk.found {prev : Option ℕ} (hp : StageOk h l p (.looking prev (some c)))
    (hc : Carries h c p) : On h l p c := by
  obtain ⟨a, hon, -⟩ | hout := hp
  · rw [hon.2 c hc]
    exact hon
  · exact absurd hc (hout c)

/-- The search passes the links of the others. -/
theorem StageOk.differs {prev : Option ℕ} (hp : StageOk h l p (.looking prev (some c)))
    (hl : ∀ {a}, On h l p a → Carries h a p) (hc : Carries h c q) (hne : q ≠ p) :
    StageOk h l p (.testing .search c) := by
  obtain ⟨a, hon, hcur⟩ | hout := hp
  · refine Or.inl ⟨a, hon, hcur, ?_⟩
    rintro rfl
    exact hne (hc.unique (hl hon))
  · exact Or.inr hout

/-- The search ends at the null pointer. -/
theorem StageOk.notFound {prev : Option ℕ} (hp : StageOk h l p (.looking prev none)) :
    Out h p := by
  obtain ⟨a, -, hcur⟩ | hout := hp
  · exact absurd rfl hcur.ne_none
  · exact hout

end Player

/-- The invariant: the list, and for every player what holds of it. -/
structure Inv (s : PlayerList S P) (l : List (ℕ × P)) : Prop where
  chain : Chain s.links s.players l
  alone : ∀ {i j p x y}, s.request i = some (p, x) → s.request j = some (p, y) → i = j
  idle : ∀ {p}, s.Free p → Settled s.links l p (s.added p)
  stage : ∀ {i p x}, s.request i = some (p, x) → StageOk s.links l p x

/-- A session that runs a request runs it about this player, and no other session does. -/
def Mine (s : PlayerList S P) (i : S) (p : P) : Prop :=
  (∀ q x, s.request i = some (q, x) → q = p) ∧ ∀ j x, s.request j = some (p, x) → j = i

variable {s t : PlayerList S P} {l l' : List (ℕ × P)} {i j : S} {p q : P}
  {x y : RequestStage}

omit [DecidableEq P] in
theorem request_goOn :
    (s.goOn i p x).request j = some (q, y) ↔
      (j = i ∧ q = p ∧ y = x) ∨ (j ≠ i ∧ s.request j = some (q, y)) := by
  by_cases hj : j = i
  · subst hj
    simp [goOn, eq_comm]
  · simp [goOn, hj]

theorem request_finish {b : Bool} :
    (s.finish i p b).request j = some (q, y) ↔ j ≠ i ∧ s.request j = some (q, y) := by
  by_cases hj : j = i
  · subst hj
    simp [finish]
  · simp [finish, hj]

omit [DecidableEq S] [DecidableEq P] in
theorem Inv.mine (hs : Inv s l) (hi : s.request i = some (p, x)) : s.Mine i p := by
  refine ⟨fun q y hq => ?_, fun j y hj => hs.alone hj hi⟩
  rw [hi] at hq
  exact (congrArg Prod.fst (Option.some.inj hq)).symm

omit [DecidableEq S] [DecidableEq P] in
theorem free_of_idle (hidle : ∀ i, s.request i = none) : s.Free p := by
  intro i stage hi
  rw [hidle i] at hi
  exact absurd hi.symm (Option.some_ne_none _)

omit [DecidableEq S] [DecidableEq P] in
theorem Free.mine (hp : s.Free p) (hi : s.request i = none) : s.Mine i p := by
  refine ⟨fun q y hq => ?_, fun j y hj => absurd hj (hp j y)⟩
  rw [hi] at hq
  exact absurd hq.symm (Option.some_ne_none _)

section Update

variable {players : Option ℕ} {links : Heap (Link P)}

omit [DecidableEq P] in
/-- A step of a request that does not complete it. -/
theorem Inv.goOn (hs : Inv s l) (hmine : s.Mine i p) (hchain : Chain links players l')
    (ho : OthersKept s.links l links l' p) (hx : StageOk links l' p x) :
    Inv (goOn { s with players := players, links := links } i p x) l' := by
  refine ⟨hchain, fun hj hk => ?_, fun {q} hq => ?_, fun {j q y} hj => ?_⟩
  · obtain ⟨rfl, rfl, -⟩ | ⟨-, hj'⟩ := request_goOn.mp hj
    · obtain ⟨rfl, -, -⟩ | ⟨-, hk'⟩ := request_goOn.mp hk
      · rfl
      · exact (hmine.2 _ _ hk').symm
    · obtain ⟨rfl, rfl, -⟩ | ⟨-, hk'⟩ := request_goOn.mp hk
      · exact hmine.2 _ _ hj'
      · exact hs.alone hj' hk'
  · have hne : q ≠ p := by
      rintro rfl
      exact hq i x (request_goOn.mpr (Or.inl ⟨rfl, rfl, rfl⟩))
    refine Settled.frame (hs.idle fun j y hj => ?_) ho hne
    by_cases hji : j = i
    · exact hne (hmine.1 q y (hji ▸ hj))
    · exact hq j y (request_goOn.mpr (Or.inr ⟨hji, hj⟩))
  · obtain ⟨-, rfl, rfl⟩ | ⟨hji, hj'⟩ := request_goOn.mp hj
    · exact hx
    · refine (hs.stage hj').frame hs.chain ho ?_
      rintro rfl
      exact hji (hmine.2 j y hj')

/-- A step that completes a request. -/
theorem Inv.finish {b : Bool} (hs : Inv s l) (hmine : s.Mine i p)
    (hchain : Chain links players l') (ho : OthersKept s.links l links l' p)
    (hp : Settled links l' p b) :
    Inv (finish { s with players := players, links := links } i p b) l' := by
  refine ⟨hchain, fun hj hk => ?_, fun {q} hq => ?_, fun {j q y} hj => ?_⟩
  · exact hs.alone (request_finish.mp hj).2 (request_finish.mp hk).2
  · by_cases hqp : q = p
    · subst hqp
      show Settled links l' q (Function.update s.added q b q)
      rw [Function.update_self]
      exact hp
    · show Settled links l' q (Function.update s.added p b q)
      rw [Function.update_of_ne hqp]
      refine Settled.frame (hs.idle fun j y hj => ?_) ho hqp
      by_cases hji : j = i
      · exact hqp (hmine.1 q y (hji ▸ hj))
      · exact hq j y (request_finish.mpr ⟨hji, hj⟩)
  · obtain ⟨hji, hj'⟩ := request_finish.mp hj
    refine (hs.stage hj').frame hs.chain ho ?_
    rintro rfl
    exact hji (hmine.2 j y hj')

end Update

omit [DecidableEq P] in
/-- A step of a request that changes neither the list nor its links. -/
theorem Inv.advance (hs : Inv s l) (hmine : s.Mine i p) (hx : StageOk s.links l p x) :
    Inv (PlayerList.goOn s i p x) l :=
  hs.goOn hmine hs.chain (.refl _ _ _) hx

/-- A request is completed without a change of the list. -/
theorem Inv.leave (hs : Inv s l) (hmine : s.Mine i p) (hp : Out s.links p) :
    Inv (PlayerList.finish s i p false) l :=
  hs.finish hmine hs.chain (.refl _ _ _) (Or.inr ⟨rfl, hp⟩)

/-! ## The writes -/

omit [DecidableEq S] [DecidableEq P] in
theorem PointsTo.get {c : ℕ} {next : Option ℕ} (hnext : s.PointsTo c next)
    (hc : Carries s.links c p) : s.links.get c = some ⟨next, p⟩ := by
  obtain ⟨n, hget⟩ := hc
  rw [PointsTo, hget] at hnext
  obtain rfl : n = next := Option.some.inj hnext
  exact hget

/-- **The new head is written**: the player is the first of the list. -/
theorem Inv.addFirst (hs : Inv s l) (hi : s.request i = some (p, .adding s.players)) :
    Inv (PlayerList.finish { s with
        players := some s.links.next
        links := s.links.alloc ⟨s.players, p⟩ } i p true)
      ((s.links.next, p) :: l) := by
  have hout : Out s.links p := hs.stage hi
  have hkept := OthersKept.push s.links l s.players p
  refine hs.finish (hs.mine hi) (hs.chain.push p) hkept (Or.inl ⟨rfl, s.links.next, ?_⟩)
  refine ⟨List.mem_cons_self, fun b hb => ?_⟩
  rcases carries_alloc.mp hb with ⟨hb, -⟩ | hb
  · exact hb
  · exact absurd hb (hout b)

omit [DecidableEq P] in
/-- **The first link is taken out.** -/
theorem Inv.relinkHead {c : ℕ} {next : Option ℕ} (hs : Inv s l)
    (hi : s.request i = some (p, .relinking none c next)) (hhead : s.players = some c)
    (hnext : s.PointsTo c next) :
    ∃ l', l = (c, p) :: l' ∧
      Inv (PlayerList.goOn { s with players := next } i p (.unlinked c)) l' := by
  have hon : On s.links l p c := hs.stage hi
  have hc := hs.chain.carries hon.1
  have hl := hs.chain
  rw [hhead] at hl
  obtain ⟨l', rfl, hl'⟩ := hl.pop (hnext.get hc)
  refine ⟨l', rfl, hs.goOn (hs.mine hi) hl' (.pop _ _ _ _) ⟨hl.notMem_rest p, hc, hon.2⟩⟩

omit [DecidableEq P] in
/-- **A link is taken out after another one.** -/
theorem Inv.relinkPrev {b c : ℕ} {next : Option ℕ} {u : P} (hs : Inv s l)
    (hi : s.request i = some (p, .relinking (some b) c next)) (hb : (b, u) ∈ l)
    (hprev : s.PointsTo b (some c)) (hnext : s.PointsTo c next) :
    ∃ l₁ l₂, l = l₁ ++ (c, p) :: l₂ ∧
      Inv (PlayerList.goOn { s with links := s.links.set b ⟨next, u⟩ } i p (.unlinked c))
        (l₁ ++ l₂) := by
  have hon : On s.links l p c := hs.stage hi
  have hc := hs.chain.carries hon.1
  have hgetb := hprev.get (hs.chain.carries hb)
  have hgetc := hnext.get hc
  obtain ⟨l₁, l₂, rfl, hl'⟩ := hs.chain.unlink hb hgetb hgetc
  have hnot : (c, p) ∉ l₁ ++ l₂ :=
    (List.nodup_cons.mp (List.perm_middle.nodup_iff.mp hs.chain.nodup)).1
  refine ⟨l₁, l₂, rfl, hs.goOn (hs.mine hi) hl' (.unlink hgetb hgetc) ⟨hnot, ?_, ?_⟩⟩
  · exact (carries_set hgetb).mpr hc
  · exact fun a ha => hon.2 a ((carries_set hgetb).mp ha)

omit [DecidableEq P] in
/-- The link that was taken out is freed. -/
theorem Inv.free {c : ℕ} (hs : Inv s l) (hi : s.request i = some (p, .freeing c)) :
    Inv (PlayerList.goOn { s with links := s.links.free c } i p .leaving) l := by
  obtain ⟨hnot, hc, hone⟩ : Cut s.links l p c := hs.stage hi
  refine hs.goOn (hs.mine hi) (hs.chain.free fun v hv => ?_) (.free l hc) fun a ha => ?_
  · rw [(hs.chain.carries hv).unique hc] at hv
    exact hnot hv
  · obtain ⟨hac, ha⟩ := carries_free.mp ha
    exact hac (hone a ha)

/-- What the steps do to the list of the players: `map_add_player` and `map_remove_player`
as they are when nothing comes between. -/
inductive Change : List P → List P → Prop
  | same {ps : List P} : Change ps ps
  | add {ps : List P} {p : P} : p ∉ ps → Change ps (p :: ps)
  | remove {ps : List P} {p : P} : p ∈ ps → Change ps (ps.erase p)

omit [DecidableEq S] in
/-- The list without one of its links. -/
theorem Cut.change {h : Heap (Link P)} {head : Option ℕ} {c : ℕ} {k : List (ℕ × P)}
    (hp : Cut h (k ++ l) p c) (hl : Chain h head (k ++ l)) :
    Change ((k ++ (c, p) :: l).map Prod.snd) ((k ++ l).map Prod.snd) := by
  have hnot := hp.notMem hl
  rw [List.map_append] at hnot
  rw [List.map_append, List.map_append, List.map_cons]
  have herase : (k.map Prod.snd ++ p :: l.map Prod.snd).erase p
      = k.map Prod.snd ++ l.map Prod.snd := by
    rw [List.erase_append_right _ fun hmem => hnot (List.mem_append_left _ hmem),
      List.erase_cons_head]
  rw [← herase]
  exact .remove (List.mem_append_right _ List.mem_cons_self)

/-- **A write that meets the list as it was read** keeps the invariant, and does to the list
of the players what the whole request is for. -/
theorem Inv.step {a : Action S P} (hs : Inv s l) (h : Guarded Step Current s a t) :
    ∃ l', Inv t l' ∧ Change (l.map Prod.snd) (l'.map Prod.snd) := by
  obtain ⟨hstep, hcurrent⟩ := h
  cases hstep with
  | @add i p hi =>
    obtain ⟨hfree, hadded⟩ := hcurrent
    refine ⟨l, hs.advance (hfree.mine hi) ?_, .same⟩
    obtain ⟨hyes, -⟩ | ⟨-, hout⟩ := hs.idle hfree
    · exact absurd (hadded.symm.trans hyes) Bool.false_ne_true
    · exact hout
  | @addFirst i p head hi =>
    -- nobody has added a player since the head was read
    have hhead : s.players = head := hcurrent p _ hi
    subst hhead
    exact ⟨_, hs.addFirst hi, .add (Out.notMem (hs.stage hi) hs.chain)⟩
  | @remove i p hi =>
    refine ⟨l, hs.advance (Free.mine hcurrent hi) ?_, .same⟩
    obtain ⟨-, a, hon⟩ | ⟨-, hout⟩ := hs.idle hcurrent
    · exact Or.inl ⟨a, hon, .of_chain hs.chain hon.1⟩
    · exact Or.inr hout
  | notFound hi => exact ⟨l, hs.leave (hs.mine hi) (hs.stage hi).notFound, .same⟩
  | differs hi hc hne =>
    have hstage := (hs.stage hi).differs (fun hon => hs.chain.carries hon.1) ⟨_, hc⟩ hne
    exact ⟨l, hs.advance (hs.mine hi) hstage, .same⟩
  | found hi hc heq =>
    subst heq
    exact ⟨l, hs.advance (hs.mine hi) ((hs.stage hi).found ⟨_, hc⟩), .same⟩
  | last hi hc hnone =>
    have hstage := (hs.stage hi).after hc
    rw [hnone] at hstage
    exact ⟨l, hs.advance (hs.mine hi) hstage, .same⟩
  | more hi _ _ => exact ⟨l, hs.advance (hs.mine hi) (stageOk_passing.mpr (hs.stage hi)), .same⟩
  | next hi hc =>
    have hstage := (stageOk_passing.mp (hs.stage hi)).after hc
    exact ⟨l, hs.advance (hs.mine hi) hstage, .same⟩
  | @relinkHead i p c next hi =>
    obtain ⟨hhead, hnext⟩ := hcurrent p _ hi
    obtain ⟨l', rfl, hs'⟩ := hs.relinkHead hi hhead hnext
    have hcut : Cut s.links l' p c := hs'.stage (request_goOn.mpr (Or.inl ⟨rfl, rfl, rfl⟩))
    exact ⟨l', hs', hcut.change (k := []) hs'.chain⟩
  | @relinkPrev i p b c next link hi hb =>
    -- the link in front is on the list as it is, with the payload that the write keeps
    obtain ⟨⟨l₀, v, hl₀, hmem⟩, hprev, hnext⟩ := hcurrent p _ hi
    obtain rfl := hl₀.unique hs.chain
    obtain rfl : link.payload = v := Carries.unique ⟨_, hb⟩ (hs.chain.carries hmem)
    obtain ⟨l₁, l₂, rfl, hs'⟩ := hs.relinkPrev hi hmem hprev hnext
    have hcut : Cut _ (l₁ ++ l₂) p c := hs'.stage (request_goOn.mpr (Or.inl ⟨rfl, rfl, rfl⟩))
    exact ⟨l₁ ++ l₂, hs', hcut.change hs'.chain⟩
  | @release i p c _ hi _ =>
    have hcut : Cut s.links l p c := hs.stage hi
    exact ⟨l, hs.advance (hs.mine hi) hcut, .same⟩
  | free hi _ => exact ⟨l, hs.free hi, .same⟩
  | @tellFirst i p hi =>
    have hout : Out s.links p := hs.stage hi
    exact ⟨l, hs.advance (hs.mine hi) hout, .same⟩
  | @tell i p _ _ hi _ =>
    have hout : Out s.links p := hs.stage hi
    exact ⟨l, hs.advance (hs.mine hi) hout, .same⟩
  | told hi => exact ⟨l, hs.leave (hs.mine hi) (hs.stage hi), .same⟩

omit [DecidableEq S] [DecidableEq P] in
theorem inv_init : Inv (init : PlayerList S P) [] := by
  refine ⟨.nil, fun hi _ => ?_, fun _ => Or.inr ⟨rfl, fun a ha => ?_⟩, fun hi => ?_⟩
  · exact absurd hi.symm (Option.some_ne_none _)
  · obtain ⟨_, hget⟩ := ha
    exact absurd hget.symm (Option.some_ne_none _)
  · exact absurd hi.symm (Option.some_ne_none _)

/-- **No arrival and no departure is lost where every write is current.**  In every run in
which the writes meet the list as it was read, whenever all requests are completed the list
holds each player that was added and not removed exactly once, and no other. -/
theorem complete_of_current {run : List (Action S P × PlayerList S P)}
    (h : Trace (Guarded Step Current) init run s) (hidle : ∀ i, s.request i = none) :
    s.Complete := by
  have hinv : ∃ l, Inv s l := by
    refine h.invariant (I := fun s => ∃ l, Inv s l) ?_ ⟨[], inv_init⟩
    rintro t a u ⟨l, ht⟩ hstep
    obtain ⟨l', hu, -⟩ := ht.step hstep
    exact ⟨l', hu⟩
  obtain ⟨l, hs⟩ := hinv
  have hsettled : ∀ p, Settled s.links l p (s.added p) := fun p => hs.idle (free_of_idle hidle)
  refine ⟨l, hs.chain, hs.chain.nodup.map_on ?_, fun p => ⟨fun hmem => ?_, fun hadded => ?_⟩⟩
  · rintro ⟨a, p⟩ ha ⟨b, q⟩ hb (rfl : p = q)
    obtain ⟨-, c, -, hone⟩ | ⟨-, hout⟩ := hsettled p
    · rw [hone a (hs.chain.carries ha), hone b (hs.chain.carries hb)]
    · exact absurd (hs.chain.carries ha) (hout a)
  · obtain ⟨hadded, -⟩ | ⟨-, hout⟩ := hsettled p
    · exact hadded
    · exact absurd hmem (hout.notMem hs.chain)
  · obtain ⟨-, c, hon, -⟩ | ⟨hnot, -⟩ := hsettled p
    · exact List.mem_map_of_mem hon
    · exact absurd (hnot.symm.trans hadded) Bool.false_ne_true

omit [DecidableEq S] [DecidableEq P] in
theorem current_go (hi : s.request i = some (p, x)) (hx : s.UpToDate x) :
    s.Current (.go i) := by
  intro q y hy
  rw [hi] at hy
  obtain ⟨rfl, rfl⟩ := Prod.mk.inj (Option.some.inj hy)
  exact hx

/-- Two players arrive, and the second one leaves again.  While the others are told, a third
player arrives. -/
theorem complete_overlapping :
    ∃ run s, Trace (Guarded Step Current) (init : PlayerList Bool ℕ) run s ∧
      s.added 0 = true ∧ s.added 1 = false ∧ s.added 2 = true ∧ s.Complete := by
  have h₀ : Trace (Guarded Step Current) (init : PlayerList Bool ℕ) [] init := Trace.nil
  have h₁ := h₀.snoc ⟨Step.add (i := true) (p := 0) rfl, free_of_idle fun _ => rfl, rfl⟩
  have h₂ := h₁.snoc ⟨Step.addFirst (i := true) rfl, current_go rfl rfl⟩
  have h₃ := h₂.snoc ⟨Step.add (i := false) (p := 1) rfl,
    free_of_idle fun i => by cases i <;> rfl, rfl⟩
  have h₄ := h₃.snoc ⟨Step.addFirst (i := false) rfl, current_go rfl rfl⟩
  have h₅ := h₄.snoc ⟨Step.remove (i := false) (p := 1) rfl,
    free_of_idle fun i => by cases i <;> rfl⟩
  have h₆ := h₅.snoc ⟨Step.found (i := false) rfl rfl rfl, current_go rfl trivial⟩
  have h₇ := h₆.snoc ⟨Step.more (i := false) rfl rfl (by decide), current_go rfl trivial⟩
  have h₈ := h₇.snoc ⟨Step.next (i := false) rfl rfl, current_go rfl trivial⟩
  have h₉ := h₈.snoc ⟨Step.relinkHead (i := false) rfl, current_go rfl ⟨rfl, rfl⟩⟩
  -- the third player arrives between the two writes of the removal, and is added in the middle
  -- of the loop that tells the others
  have h₁₀ := h₉.snoc ⟨Step.add (i := true) (p := 2) rfl,
    fun i _ hp => (by cases i <;> cases hp), rfl⟩
  have h₁₁ := h₁₀.snoc ⟨Step.release (i := false) rfl rfl, current_go rfl trivial⟩
  have h₁₂ := h₁₁.snoc ⟨Step.free (i := false) rfl rfl, current_go rfl trivial⟩
  have h₁₃ := h₁₂.snoc ⟨Step.tellFirst (i := false) rfl, current_go rfl trivial⟩
  have h₁₄ := h₁₃.snoc ⟨Step.tell (i := false) rfl rfl, current_go rfl trivial⟩
  have h₁₅ := h₁₄.snoc ⟨Step.addFirst (i := true) rfl, current_go rfl rfl⟩
  have h₁₆ := h₁₅.snoc ⟨Step.last (i := false) rfl rfl rfl, current_go rfl trivial⟩
  have h₁₇ := h₁₆.snoc ⟨Step.told (i := false) rfl, current_go rfl trivial⟩
  have hcomplete := complete_of_current h₁₇ fun i => by cases i <;> rfl
  exact ⟨_, _, h₁₇, rfl, rfl, rfl, hcomplete⟩

/-- **Two players who arrive at once.**  Both read the empty list before either writes, and
the player who is written first is not on it. -/
theorem not_complete_interleaved :
    ∃ run s, Trace Step (init : PlayerList Bool ℕ) run s ∧ (∀ i, s.request i = none) ∧
      ¬s.Complete := by
  have h₀ : Trace Step (init : PlayerList Bool ℕ) [] init := Trace.nil
  have h₁ := h₀.snoc (Step.add (i := true) (p := 0) rfl)
  have h₂ := h₁.snoc (Step.add (i := false) (p := 1) rfl)
  have h₃ := h₂.snoc (Step.addFirst (i := true) rfl)
  have h₄ := h₃.snoc (Step.addFirst (i := false) rfl)
  refine ⟨_, _, h₄, fun i => by cases i <;> rfl, ?_⟩
  rintro ⟨l, hl, -, hadded⟩
  obtain rfl := hl.unique (.cons rfl .nil)
  exact absurd ((hadded 0).mpr rfl) (by decide)

end PlayerList

end Maps
end MmoBackend
