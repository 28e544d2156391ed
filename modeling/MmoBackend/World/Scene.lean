import MmoBackend.World.Registry

/-!
# The scene

What the clients have to do with is a small part of the state: which players are
listed on which map, the players and sessions themselves, and what has been written
to the sockets.  This part is the scene.  Bits, references to maps, locks, the table
of maps, the database and the table of tokens are not in it, so that a call that
works on these does nothing to the scene at all.
-/

namespace MmoBackend

open Communication Maps

namespace World

/-- The part of the state the clients have to do with. -/
@[ext] structure Scene where
  /-- The players listed on a map. -/
  roster : ℕ → List ℕ
  player : ℕ → Option Player
  session : ℕ → Option Session
  out : List (ℕ × Sent)

namespace Scene

variable (s : Scene)

/-- List other players on a map. -/
def setRoster (m : ℕ) (l : List ℕ) : Scene := { s with roster := Function.update s.roster m l }

/-- Write a player. -/
def setPlayer (p : ℕ) (player : Player) : Scene :=
  { s with player := Function.update s.player p (some player) }

/-- Write a session. -/
def setSession (sid : ℕ) (session : Session) : Scene :=
  { s with session := Function.update s.session sid (some session) }

/-- Write more to the sockets. -/
def emit (l : List (ℕ × Sent)) : Scene := { s with out := s.out ++ l }

/-- The socket of a player. -/
def fdOf (p : ℕ) : Option ℕ :=
  (s.player p).bind fun player => player.session.bind fun sid => (s.session sid).map Session.fd

/-- A packet for each of a list of players. -/
def copies (l : List ℕ) (packet : ServerPacket) : List (ℕ × Sent) :=
  l.flatMap fun p => (s.fdOf p).toList.map fun fd => (fd, Sent.packet packet)

/-- Send a packet to each of a list of players. -/
def tellAll (l : List ℕ) (packet : ServerPacket) : Scene := s.emit (s.copies l packet)

variable {s}

theorem emit_emit (l l' : List (ℕ × Sent)) : (s.emit l).emit l' = s.emit (l ++ l') := by
  simp [emit]

theorem emit_nil : s.emit [] = s := by
  simp [emit]

theorem setPlayer_setPlayer (p : ℕ) (player player' : Player) :
    (s.setPlayer p player).setPlayer p player' = s.setPlayer p player' := by
  simp [setPlayer]

/-- A player that keeps its session keeps its socket. -/
theorem fdOf_setPlayer {p : ℕ} {old player : Player} (hp : s.player p = some old)
    (hsession : player.session = old.session) : (s.setPlayer p player).fdOf = s.fdOf := by
  funext q
  by_cases hq : q = p
  · subst hq
    simp [fdOf, setPlayer, hp, hsession]
  · simp [fdOf, setPlayer, Function.update_of_ne hq]

theorem copies_congr {s s' : Scene} (h : s'.fdOf = s.fdOf) (l : List ℕ) (packet : ServerPacket) :
    s'.copies l packet = s.copies l packet := by
  rw [copies, copies, h]

/-- Which sockets a packet for a list of players goes to. -/
theorem mem_copies {l : List ℕ} {packet : ServerPacket} {e : ℕ × Sent} :
    e ∈ s.copies l packet ↔ ∃ p ∈ l, s.fdOf p = some e.1 ∧ e.2 = .packet packet := by
  obtain ⟨fd, sent⟩ := e
  simp only [copies, List.mem_flatMap, List.mem_map, Option.mem_toList, Prod.mk.injEq]
  refine exists_congr fun p => and_congr_right fun _ => ?_
  constructor
  · rintro ⟨fd', hfd, rfl, rfl⟩
    exact ⟨hfd, rfl⟩
  · rintro ⟨hfd, rfl⟩
    exact ⟨fd, hfd, rfl, rfl⟩

end Scene

/-- The scene of a state. -/
def scene (w : World) : Scene where
  roster m := ((w.maps.get m).map Map.players).getD []
  player := w.players.get
  session := w.sessions.get
  out := w.out

/-- Write more to the sockets. -/
def emit (l : List (ℕ × Sent)) (w : World) : World := { w with out := w.out ++ l }

/-- Send a packet to each of a list of players. -/
def tellAll (l : List ℕ) (packet : ServerPacket) (w : World) : World :=
  w.emit (w.scene.copies l packet)

theorem emit_nil (w : World) : w.emit [] = w := by
  simp [emit]

/-! ## The scene after a write -/

section Write

variable {defs : MapDefs} {w w' : World} {m p sid i : ℕ} {map old : Map} {player before : Player}
  {session session' : Session} {l : List ℕ} {packet : ServerPacket}

@[simp] theorem maps_tellAll : (w.tellAll l packet).maps = w.maps := rfl
@[simp] theorem tiles_tellAll : (w.tellAll l packet).tiles = w.tiles := rfl
@[simp] theorem players_tellAll : (w.tellAll l packet).players = w.players := rfl
@[simp] theorem sessions_tellAll : (w.tellAll l packet).sessions = w.sessions := rfl

theorem roster_scene (w : World) (m : ℕ) :
    w.scene.roster m = ((w.maps.get m).map Map.players).getD [] := rfl

theorem roster_eq (hm : w.maps.get m = some map) : w.scene.roster m = map.players := by
  rw [roster_scene, hm]
  rfl

theorem mem_roster {q : ℕ} :
    q ∈ w.scene.roster m ↔ ∃ map, w.maps.get m = some map ∧ q ∈ map.players := by
  rw [roster_scene]
  cases hm : w.maps.get m with
  | none => simp
  | some map => simp

theorem scene_setMap (hm : w.maps.get m = some old) :
    (w.setMap m map).scene = w.scene.setRoster m map.players := by
  refine Scene.ext (funext fun k => ?_) rfl rfl rfl
  show (((w.maps.set m map).get k).map Map.players).getD []
    = Function.update w.scene.roster m map.players k
  by_cases hk : k = m
  · subst hk
    rw [Heap.get_set_self map hm, Function.update_self]
    rfl
  · rw [Heap.get_set_of_ne map hk, Function.update_of_ne hk]
    rfl

/-- A write to a map that keeps its list of players does nothing to the scene. -/
theorem scene_setMap_of_players (hm : w.maps.get m = some old)
    (hplayers : map.players = old.players) : (w.setMap m map).scene = w.scene := by
  rw [scene_setMap hm, hplayers, ← roster_eq hm, Scene.setRoster, Function.update_eq_self]

theorem scene_setPlayer (hp : w.players.get p = some before) :
    (w.setPlayer p player).scene = w.scene.setPlayer p player := by
  refine Scene.ext rfl (funext fun q => ?_) rfl rfl
  show (w.players.set p player).get q = Function.update w.scene.player p (some player) q
  by_cases hq : q = p
  · subst hq
    rw [Heap.get_set_self player hp, Function.update_self]
  · rw [Heap.get_set_of_ne player hq, Function.update_of_ne hq]
    rfl

theorem scene_setSession (hsid : w.sessions.get sid = some session') :
    (w.setSession sid session).scene = w.scene.setSession sid session := by
  refine Scene.ext rfl rfl (funext fun q => ?_) rfl
  show (w.sessions.set sid session).get q = Function.update w.scene.session sid (some session) q
  by_cases hq : q = sid
  · subst hq
    rw [Heap.get_set_self session hsid, Function.update_self]
  · rw [Heap.get_set_of_ne session hq, Function.update_of_ne hq]
    rfl

theorem scene_emit (l : List (ℕ × Sent)) : (w.emit l).scene = w.scene.emit l := rfl

theorem scene_tellAll : (w.tellAll l packet).scene = w.scene.tellAll l packet := rfl

theorem scene_write (fd : ℕ) (sent : Sent) :
    (w.write fd sent).scene = w.scene.emit [(fd, sent)] := rfl

/-- Loading a map does nothing to the scene: a new map has no players. -/
theorem Loads.scene_eq (h : Loads defs w i m map w') : w'.scene = w.scene := by
  cases h with
  | loaded _ hget => exact scene_setMap_of_players hget rfl
  | created _ hm hloader =>
    refine Scene.ext (funext fun k => ?_) rfl rfl rfl
    show (((w.maps.alloc { map with refs := map.refs + 1 }).get k).map Map.players).getD [] = _
    rw [Heap.get_alloc]
    split
    · rename_i hk
      rw [hk, roster_scene w, Heap.get_next]
      exact (defs.fresh i map hloader).2.2
    · rfl

end Write

end World
end MmoBackend
