import MmoBackend.World.Frame
import MmoBackend.World.Membership
import MmoBackend.World.Twins

/-!
# Sockets

A session is created for a socket that no other session has, and it keeps it: no request
writes the file descriptor of a session.  So a socket tells sessions apart, and what arrives
on it is handled by one session for good.
-/

namespace MmoBackend

open Authentication Communication Exec Maps

namespace World

variable {defs : MapDefs} {w w' : World} {a : Request} {s fuel : ℕ} {session : Session}
  {packet : Packet}

/-- A login leaves the other sessions alone, and it keeps its own file descriptor. -/
theorem LoginEnds.sessions {r : Option ServerPacket} (hs : w.sessions.get s = some session)
    (h : LoginEnds defs fuel packet s session w r w') :
    (∀ s' ≠ s, w'.sessions.get s' = w.sessions.get s') ∧
      (w'.sessions.get s).map Session.fd = (w.sessions.get s).map Session.fd := by
  cases h with
  | unknown => exact ⟨fun _ _ => rfl, rfl⟩
  | noRecord =>
    refine ⟨fun s' hs' => Heap.get_set_of_ne _ hs', ?_⟩
    exact Heap.map_get_set (f := Session.fd) (v := { session with player := none }) hs rfl s
  | spawned _ _ _ _ _ henters hspawn =>
    have hget : ∀ s', _ = (Function.update w.sessions.get s _) s' :=
      congrFun (congrArg Scene.session henters.scene_eq)
    rw [(beside_mapSpawnPlayer _ _ _ _ _ _ _ _ _ hspawn).sessions]
    refine ⟨fun s' hs' => (hget s').trans (Function.update_of_ne hs' _ _), ?_⟩
    refine (congrArg (Option.map Session.fd) (hget s)).trans ?_
    rw [Function.update_self, hs]
    rfl

/-- **A packet** is the business of its session, which keeps its file descriptor. -/
theorem Member.packet_sessions (h : Member defs w) (hstep : Step defs w (.packet s packet) w') :
    (∀ s' ≠ s, w'.sessions.get s' = w.sessions.get s') ∧
      (w'.sessions.get s).map Session.fd = (w.sessions.get s).map Session.fd := by
  have hcache := h.sound.cache
  have hsame : ∀ {v : World}, v.sessions = w.sessions →
      (∀ s' ≠ s, v.sessions.get s' = w.sessions.get s') ∧
        (v.sessions.get s).map Session.fd = (w.sessions.get s).map Session.fd :=
    fun heq => by rw [heq]; exact ⟨fun _ _ => rfl, rfl⟩
  cases hstep.turn hcache with
  | badState => exact hsame rfl
  | @login _ _ _ _ _ v l _ hs _ _ hends =>
    have hsessions := hends.sessions (w := w.emit l) hs
    exact hsessions
  | @move _ _ _ _ _ _ _ _ v l _ _ _ _ _ _ _ hmove =>
    have hsessions := (beside_playerMove _ _ _ _ _ _ _ _ hmove).sessions
    exact hsame hsessions
  | @inspect _ _ _ _ v l _ _ _ _ hget =>
    rcases dbPlayerGetPlayer_reads (w := w.emit l) hcache hget with rfl | ⟨player, hreads⟩
    · exact hsame rfl
    · have hsession : ∀ s', v.sessions.get s' = w.sessions.get s' :=
        congrFun (congrArg Scene.session hreads.scene_eq)
      exact ⟨fun s' _ => hsession s', congrArg (Option.map Session.fd) (hsession s)⟩

/-- What a request does to the file descriptors: nothing, or a new session gets a new one. -/
inductive Plugs (w w' : World) : Prop
  | same : (∀ s, (w'.sessions.get s).map Session.fd = (w.sessions.get s).map Session.fd) →
      Plugs w w'
  | new {fd : ℕ} : (∀ s session, w.sessions.get s = some session → session.fd ≠ fd) →
      w'.sessions = w.sessions.alloc ⟨fd, .disabled, none⟩ → Plugs w w'

theorem Member.plugs (h : Member defs w) (hstep : Step defs w a w') : Plugs w w' := by
  cases hstep with
  | connect hfd hcreate =>
    obtain rfl := sessionCreate_eq_ok hcreate
    exact .new hfd rfl
  | token htoken =>
    obtain ⟨_, -, rfl⟩ := onTable_eq_ok.mp htoken
    exact .same fun _ => rfl
  | @packet _ s _ _ hloop =>
    obtain ⟨hothers, hself⟩ := h.packet_sessions (.packet hloop)
    refine .same fun s' => ?_
    by_cases hs' : s' = s
    · rw [hs', hself]
    · rw [hothers s' hs']

/-- A session keeps its socket. -/
theorem Member.fd_kept (h : Member defs w) (hstep : Step defs w a w')
    (hs : w.sessions.get s = some session) :
    ∃ session', w'.sessions.get s = some session' ∧ session'.fd = session.fd := by
  cases h.plugs hstep with
  | same hsame => exact Option.map_eq_some_iff.mp ((hsame s).trans (by rw [hs, Option.map_some]))
  | new _ hnew => exact ⟨session, hnew ▸ Heap.get_alloc_of_get _ hs, rfl⟩

/-- Only a connection brings a session. -/
theorem Member.fd_before (h : Member defs w) (hstep : Step defs w a w')
    (ha : ∀ fd, a ≠ .connect fd) (hs : w'.sessions.get s = some session) :
    ∃ old, w.sessions.get s = some old ∧ old.fd = session.fd := by
  cases hstep with
  | connect _ _ => exact absurd rfl (ha _)
  | token hinsert =>
    obtain ⟨t, -, rfl⟩ := onTable_eq_ok.mp hinsert
    exact ⟨session, hs, rfl⟩
  | @packet _ s' _ _ hloop =>
    obtain ⟨hothers, hfd⟩ := h.packet_sessions (.packet hloop)
    by_cases hss : s = s'
    · subst hss
      exact Option.map_eq_some_iff.mp (hfd.symm.trans (by rw [hs, Option.map_some]))
    · exact ⟨session, (hothers s hss).symm.trans hs, rfl⟩

/-- **No two sessions** get one socket. -/
theorem DistinctFds.step (h : DistinctFds w) (hw : Member defs w) (hstep : Step defs w a w') :
    DistinctFds w' := by
  intro s s' session session' hs hs' heq
  cases hw.plugs hstep with
  | same hsame =>
    have hback : ∀ s session, w'.sessions.get s = some session →
        ∃ old, w.sessions.get s = some old ∧ old.fd = session.fd := fun s session hs =>
      Option.map_eq_some_iff.mp ((hsame s).symm.trans (by rw [hs, Option.map_some]))
    obtain ⟨old, hold, hfd⟩ := hback s session hs
    obtain ⟨old', hold', hfd'⟩ := hback s' session' hs'
    exact h s s' old old' hold hold' (by rw [hfd, hfd', heq])
  | new hfd hnew =>
    rw [hnew] at hs hs'
    rcases Heap.get_alloc_eq_some hs with ⟨rfl, rfl⟩ | ⟨-, hs⟩ <;>
      rcases Heap.get_alloc_eq_some hs' with ⟨rfl, rfl⟩ | ⟨-, hs'⟩
    · rfl
    · exact absurd heq.symm (hfd s' session' hs')
    · exact absurd heq (hfd s session hs)
    · exact h s s' session session' hs hs' heq

end World
end MmoBackend
