import MmoBackend.World.Server

/-!
# More rounds change nothing

`map_spawn_player` and `player_move` call each other through the events of a map, and
the model cuts this circle off after a number of rounds.  A call that returns before it
is cut off returns the same with more rounds, `mapSpawnPlayer_below`, and so does a round
of the event loop, `eventLoop_below`.  So the number is not part of the behaviour: whatever
numbers two runs of a request are given, they cannot both return and differ.
-/

namespace MmoBackend

open Communication Exec Maps

namespace World

variable {defs : MapDefs}

section Circle

variable {spawn spawn' : ℤ → ℕ → ℤ → ℤ → ℤ → Exec World ℤ}

theorem mapEventChangeMap_below
    (hspawn : ∀ id p x y suppress, Below (spawn id p x y suppress) (spawn' id p x y suppress))
    (p : ℕ) (e : MapEvent) : Below (mapEventChangeMap spawn p e) (mapEventChangeMap spawn' p e) :=
  below_bind_right fun _ => below_bind_right fun _ => below_bind_right fun _ =>
    below_bind_right fun _ => below_bind (hspawn _ _ _ _ _) fun _ => Below.refl _

theorem activateEvent_below
    (hspawn : ∀ id p x y suppress, Below (spawn id p x y suppress) (spawn' id p x y suppress))
    (x y : ℤ) (m p : ℕ) (e : MapEvent) :
    Below (activateEvent spawn x y m p e) (activateEvent spawn' x y m p e) := by
  refine below_bind_right fun _ => below_ite ?_ (Below.refl _)
  unfold eventFunc
  cases e.func with
  | changeMap => exact mapEventChangeMap_below hspawn p e
  | _ => exact Below.refl _

theorem mapEventActivate_below
    (hspawn : ∀ id p x y suppress, Below (spawn id p x y suppress) (spawn' id p x y suppress))
    (x y : ℤ) (m p : ℕ) :
    Below (mapEventActivate defs spawn x y m p) (mapEventActivate defs spawn' x y m p) :=
  below_bind_right fun _ => below_bind_right fun _ =>
    below_bind (below_forEach fun e _ => activateEvent_below hspawn x y m p e) fun _ =>
      Below.refl _

variable {activate activate' : ℤ → ℤ → ℕ → ℕ → Exec World Unit}

theorem moveTo_below (hactivate : ∀ x y m p, Below (activate x y m p) (activate' x y m p))
    (p : ℕ) (x y : ℤ) (suppress : Bool) :
    Below (moveTo activate p x y suppress) (moveTo activate' p x y suppress) := by
  refine below_bind_right fun _ => below_bind ?_ fun _ => Below.refl _
  exact below_ite (Below.refl _) (below_bind_right fun _ => below_bind_right fun _ =>
    hactivate _ _ _ _)

theorem moveFrom_below (hactivate : ∀ x y m p, Below (activate x y m p) (activate' x y m p))
    (oldMap : Option ℕ) (p : ℕ) (x y : ℤ) (args : MoveArgs) :
    Below (moveFrom activate oldMap p x y args) (moveFrom activate' oldMap p x y args) :=
  below_bind_right fun _ => below_ite
    (below_bind (moveTo_below hactivate _ _ _ _) fun _ => Below.refl _) (Below.refl _)

theorem moveWithin_below (hactivate : ∀ x y m p, Below (activate x y m p) (activate' x y m p))
    (oldMap : Option ℕ) (p : ℕ) (x y : ℤ) (args : MoveArgs) :
    Below (moveWithin activate oldMap p x y args) (moveWithin activate' oldMap p x y args) :=
  below_bind_right fun _ => below_bind_right fun _ => below_bind_right fun _ =>
    below_ite (below_bind_right fun _ =>
      below_ite (moveFrom_below hactivate _ _ _ _ _) (Below.refl _)) (Below.refl _)

theorem playerMoveWith_below (hactivate : ∀ x y m p, Below (activate x y m p) (activate' x y m p))
    (p : ℕ) (x y : ℤ) (args : MoveArgs) :
    Below (playerMoveWith defs activate p x y args) (playerMoveWith defs activate' p x y args) :=
  below_bind_right fun _ => below_bind_right fun _ => below_bind_right fun _ =>
    below_ite (moveWithin_below hactivate _ _ _ _ _) (Below.refl _)

variable {move move' : ℕ → ℤ → ℤ → MoveArgs → Exec World Bool}

theorem mapSpawnPlayerWith_below (hmove : ∀ p x y args, Below (move p x y args) (move' p x y args))
    (id : ℤ) (p : ℕ) (x y suppress : ℤ) :
    Below (mapSpawnPlayerWith defs move id p x y suppress)
      (mapSpawnPlayerWith defs move' id p x y suppress) :=
  below_ite (Below.refl _) (below_bind_right fun _ => below_bind_right fun _ =>
    below_bind_right fun _ => below_bind (hmove _ _ _ _) fun _ => Below.refl _)

end Circle

/-! ## Closing the circle -/

/-- One more round. -/
theorem mapSpawnPlayer_below_succ (fuel : ℕ) : ∀ id p x y suppress,
    Below (mapSpawnPlayer defs fuel id p x y suppress)
      (mapSpawnPlayer defs (fuel + 1) id p x y suppress) := by
  induction fuel with
  | zero => exact fun _ _ _ _ _ => below_stop _ _
  | succ fuel ih =>
    exact fun id p x y suppress => mapSpawnPlayerWith_below
      (fun p x y args => playerMoveWith_below (mapEventActivate_below ih) p x y args) id p x y
      suppress

/-- **Any number of rounds more.** -/
theorem mapSpawnPlayer_below {fuel fuel' : ℕ} (h : fuel ≤ fuel') (id : ℤ) (p : ℕ)
    (x y suppress : ℤ) :
    Below (mapSpawnPlayer defs fuel id p x y suppress)
      (mapSpawnPlayer defs fuel' id p x y suppress) := by
  induction fuel', h using Nat.le_induction with
  | base => exact Below.refl _
  | succ n _ ih => exact fun s r hs => mapSpawnPlayer_below_succ n id p x y suppress s r (ih s r hs)

theorem playerMove_below {fuel fuel' : ℕ} (h : fuel ≤ fuel') (p : ℕ) (x y : ℤ) (args : MoveArgs) :
    Below (playerMove defs fuel p x y args) (playerMove defs fuel' p x y args) :=
  playerMoveWith_below (mapEventActivate_below (mapSpawnPlayer_below h)) p x y args

/-! ## Requests -/

section Requests

variable {fuel fuel' : ℕ} (h : fuel ≤ fuel') (packet : Packet) (s : ℕ)

include h

theorem packetHandleLogin_below :
    Below (packetHandleLogin defs fuel packet s) (packetHandleLogin defs fuel' packet s) := by
  refine below_bind_right fun _ => below_bind_right fun found => ?_
  cases found with
  | none => exact Below.refl _
  | some c =>
    refine below_bind_right fun _ => below_bind_right fun _ => below_bind_right fun found =>
      below_bind_right fun _ => ?_
    cases found with
    | none => exact Below.refl _
    | some p =>
      exact below_bind_right fun _ => below_bind_right fun _ => below_bind_right fun _ =>
        below_bind_right fun _ => below_bind_right fun _ => below_bind_right fun _ =>
          below_bind (mapSpawnPlayer_below h _ _ _ _ _) fun _ => Below.refl _

theorem packetHandleMove_below :
    Below (packetHandleMove defs fuel packet s) (packetHandleMove defs fuel' packet s) :=
  below_bind_right fun _ => below_bind_right fun _ => below_bind_right fun _ =>
    below_bind_right fun _ => below_bind (playerMove_below h _ _ _ _) fun _ => Below.refl _

theorem packetHandleRoute_below :
    Below (packetHandleRoute defs fuel packet s) (packetHandleRoute defs fuel' packet s) :=
  below_ite (Below.refl _) (below_ite (packetHandleLogin_below h packet s)
    (below_ite (Below.refl _) (below_ite (packetHandleMove_below h packet s) (Below.refl _))))

/-- A round of the event loop. -/
theorem eventLoop_below (received : Option Packet) :
    Below (eventLoop defs fuel s received) (eventLoop defs fuel' s received) :=
  below_bind_right fun _ => below_bind_right fun _ => below_bind_right fun _ =>
    below_ite (below_bind_right fun _ => below_bind (packetHandleRoute_below h _ s) fun _ =>
      Below.refl _) (Below.refl _)

end Requests

end World
end MmoBackend
