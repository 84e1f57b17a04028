import Messenger.Lib.Index
import Messenger.Lib.Run
import Messenger.Model.Peer

/-!
# Peers that share an address

The registry has an entry by address for each peer, but only one for each address. Disconnecting
a peer erases the entry of its address, and a peer whose address has no entry cannot be
disconnected any more. So a disconnect does all it should exactly if no other peer has the same
address (`removes_iff`), and `stop` ends all sessions exactly if no two peers share one
(`stop_empties_iff`).

The two sides of each equivalence are proved differently. That unshared addresses are enough is an
induction on the calls, in which every session is found by its address. That they are needed goes
by `Clings`: a session that has no entry by address, or shares its address with another, can be
disconnected in no order of calls, since disconnecting the one takes away the entry of the other.
It is an invariant of disconnects, so a node on which something clings has a session left after
`stop`.
-/

set_option autoImplicit false

namespace Messenger

open Messenger.Lib

variable {s s' : PeerNode} {fd : Fd} {session session' : PeerNode.Session}

namespace PeerNode

/-! ## What should hold -/

/-- Every session is found by its address, or another one with the same address is. The registry has
    two maps, and this is what the second owes to the first. -/
abbrev FoundByIp (s : PeerNode) : Prop := Indexed Session.ip s.byFd s.byIp

/-- From `s` to `s'` the session at `fd` has been removed, and nothing else. What is asked for last
    is what a disconnect can spoil: the other peers have to be found by their addresses still. -/
structure Removes (s : PeerNode) (fd : Fd) (s' : PeerNode) : Prop where
  session : s'.byFd fd = none
  peer : s'.peers fd = none
  -- The callback, if there is one, has been called once.
  called : s'.disconnected
    = s.disconnected ++ if s.callbacks.onPeerDisconnected then [fd] else []
  others : ∀ other ≠ fd, s'.byFd other = s.byFd other
  indexed : s'.FoundByIp

/-- The call is not a disconnect, or not of a registered peer, or it removes the peer. For a
    descriptor that is not registered nothing is asked: `by_fd[fd]` makes an empty pointer then,
    which is dereferenced, and that is a matter of the caller. -/
def Clean (s : PeerNode) : PeerCall → Prop
  | .registerPeerConnection _ => True
  | .disconnectFromPeer fd => (s.byFd fd).isSome → s.Removes fd (s.step (.disconnectFromPeer fd))

/-- No other peer has the address of the one that is disconnected. The key is the address without
    the port, so two peers on one machine have the same. -/
def AddressUnshared (s : PeerNode) : PeerCall → Prop
  | .registerPeerConnection _ => True
  | .disconnectFromPeer fd =>
    ∀ session, s.byFd fd = some session → Alone Session.ip s.byFd fd session

/-- The elements of `peerFds` are the descriptors in `by_fd`, in some order: `stop` goes through a
    hash map, and the order of that is not known. -/
structure Lists (s : PeerNode) (peerFds : List Fd) : Prop where
  nodup : peerFds.Nodup
  mem_iff : ∀ fd, fd ∈ peerFds ↔ (s.byFd fd).isSome

/-! ## The calls -/

/-- The node when the session at `fd` has been removed, with the entry of the address. -/
def without (s : PeerNode) (fd : Fd) (ip : Bytes) : PeerNode :=
  { s with
    watched := s.watched.erase fd
    peers := s.peers.erase fd
    byFd := s.byFd.erase fd
    byIp := s.byIp.erase ip
    disconnected := s.disconnected ++ if s.callbacks.onPeerDisconnected then [fd] else [] }

theorem sessionAt_some (h : s.byFd fd = some session) : sessionAt fd s = .ok session s := by
  unfold sessionAt
  rw [get_bind_run, h]
  rfl

theorem sessionAt_none (h : s.byFd fd = none) : sessionAt fd s = .error .sessionGone s := by
  unfold sessionAt
  rw [get_bind_run, h]
  rfl

/-- What a disconnect does when it finds an entry for the address. It does not look whose entry it
    is: with two peers at one address, the entry is that of the later one, and is erased whoever is
    disconnected. -/
theorem disconnect_found {fd' : Fd} (h : s.byFd fd = some session)
    (hip : s.byIp session.ip = some fd') :
    disconnectFromPeer fd s = .ok 0 (s.without fd session.ip) := by
  unfold disconnectFromPeer
  rw [bind_ok (sessionAt_some h), get_bind_run, hip]
  unfold without
  cases hcallback : s.callbacks.onPeerDisconnected with
  | true => rfl
  | false =>
    rw [show (if false = true then [fd] else []) = ([] : List Fd) from rfl, List.append_nil]
    rfl

/-- Without an entry of its address a session stays. The call returns 1, which nobody looks at. -/
theorem disconnect_not_found (h : s.byFd fd = some session) (hip : s.byIp session.ip = none) :
    disconnectFromPeer fd s = .ok 1 s := by
  unfold disconnectFromPeer
  rw [bind_ok (sessionAt_some h), get_bind_run, hip]
  rfl

theorem disconnect_gone (h : s.byFd fd = none) :
    disconnectFromPeer fd s = .error .sessionGone s := by
  unfold disconnectFromPeer
  exact bind_error (sessionAt_none h)

theorem register_known (h : s.byFd session.fd = some session') :
    registerPeerConnection session s = .ok 1 s := by
  unfold registerPeerConnection
  rw [get_bind_run, h]
  rfl

/-- Nothing but the interest list is changed, whether or not the descriptor was in it. -/
theorem addFd_run (fd : Fd) (s : PeerNode) :
    ∃ watched, addFd fd s = .ok () { s with watched := watched } := by
  unfold addFd
  rw [get_bind_run]
  cases s.watched fd with
  | none => exact ⟨_, rfl⟩
  | some interest => exact ⟨s.watched, rfl⟩

/-- A new session is entered in all three maps. Its entry by address replaces that of a peer with
    the same one. -/
theorem register_new (h : s.byFd session.fd = none) :
    ∃ s', registerPeerConnection session s = .ok 0 s' ∧
      s'.byFd = s.byFd.insert session.fd session ∧
      s'.byIp = s.byIp.insert session.ip session.fd ∧
      s'.peers = s.peers.insert session.fd () := by
  obtain ⟨watched, hadd⟩ :=
    addFd_run session.fd { s with peers := s.peers.insert session.fd () }
  have hpeer : addPeer session s = .ok () { s with peers := s.peers.insert session.fd () } := rfl
  unfold registerPeerConnection
  rw [get_bind_run, h]
  dsimp only
  rw [bind_ok hpeer, bind_ok hadd]
  cases s.callbacks.onPeerConnected with
  | true => exact ⟨_, rfl, rfl, rfl, rfl⟩
  | false => exact ⟨_, rfl, rfl, rfl, rfl⟩

theorem step_disconnect {result : Int} (h : disconnectFromPeer fd s = .ok result s') :
    s.step (.disconnectFromPeer fd) = s' := finalState_ok h

theorem step_register {result : Int} (h : registerPeerConnection session s = .ok result s') :
    s.step (.registerPeerConnection session) = s' := finalState_ok h

theorem step_disconnect_gone (h : s.byFd fd = none) : s.step (.disconnectFromPeer fd) = s :=
  finalState_error (disconnect_gone h)

/-! ## One call -/

/-- **A disconnect removes the peer exactly if no other one has its address.** All fields of
    `Removes` but the last hold anyway; the last is about the index by address after one entry has
    been erased from it, which `erase_iff` settles for any index. -/
theorem removes_iff (hs : s.FoundByIp) (h : s.byFd fd = some session) :
    s.Removes fd (s.step (.disconnectFromPeer fd)) ↔ Alone Session.ip s.byFd fd session := by
  obtain ⟨fd', -, hip, -, -⟩ := hs fd session h
  rw [step_disconnect (disconnect_found h hip), ← hs.erase_iff h]
  refine ⟨Removes.indexed, fun hindexed => ?_⟩
  exact ⟨Table.erase_self .., Table.erase_self .., rfl, fun other hne => Table.erase_of_ne hne ..,
    hindexed⟩

theorem clean_iff (hs : s.FoundByIp) (call : PeerCall) : s.Clean call ↔ s.AddressUnshared call := by
  cases call with
  | registerPeerConnection session => exact Iff.rfl
  | disconnectFromPeer fd =>
    constructor
    · intro hclean session h
      exact (removes_iff hs h).mp (hclean (by rw [h]; rfl))
    · intro hunshared hsome
      obtain ⟨session, h⟩ := Option.isSome_iff_exists.mp hsome
      exact (removes_iff hs h).mpr (hunshared session h)

/-- A clean call keeps the index in order, so the next call starts from where `clean_iff` applies.
    For a registration this is the insertion of an entry that may replace another one. -/
theorem Clean.foundByIp {call : PeerCall} (hs : s.FoundByIp) (h : s.Clean call) :
    (s.step call).FoundByIp := by
  cases call with
  | registerPeerConnection session =>
    cases hfd : s.byFd session.fd with
    | some session' =>
      rw [step_register (register_known hfd)]
      exact hs
    | none =>
      obtain ⟨s', hrun, hbyFd, hbyIp, -⟩ := register_new hfd
      rw [step_register hrun, FoundByIp, hbyFd, hbyIp]
      exact hs.insert hfd session
  | disconnectFromPeer fd =>
    cases hfd : s.byFd fd with
    | none =>
      rw [step_disconnect_gone hfd]
      exact hs
    | some session => exact (h (by rw [hfd]; rfl)).indexed

theorem foundByIp_of_clean {calls : List PeerCall} (hs : s.FoundByIp)
    (h : Along PeerNode.step Clean s calls) : (s.run calls).FoundByIp := by
  induction calls generalizing s with
  | nil => exact hs
  | cons call calls ih => exact ih (h.1.foundByIp hs) h.2

/-! ## `stop` -/

/-- The loop of `stop`. -/
def disconnectAll (peerFds : List Fd) : PeerM Unit :=
  peerFds.forM fun fd => do
    let _result ← disconnectFromPeer fd
    return ()

/-- A session without an entry, or with the address of another one. Either will outlive `stop`: the
    first cannot be removed, and of two with one address the second cannot, once the first is
    gone. -/
def Clings (s : PeerNode) : Prop :=
  ∃ fd session, s.byFd fd = some session ∧ (s.byIp session.ip = none ∨
    ∃ other session', other ≠ fd ∧ s.byFd other = some session' ∧ session'.ip = session.ip)

/-- Of two with one address, the one that is left has no entry. This is the case to look at: before
    the disconnect the two share an entry, after it there is none. A session that clings for another
    reason is not touched, since its address is a different one. -/
theorem Clings.without (hs : s.Clings) {fd' : Fd} (h : s.byFd fd = some session)
    (hip : s.byIp session.ip = some fd') : (s.without fd session.ip).Clings := by
  have hstays : ∀ {k v}, k ≠ fd → s.byFd k = some v → (s.without fd session.ip).byFd k = some v :=
    fun hne hk => (Table.erase_of_ne hne _).trans hk
  obtain ⟨k, v, hk, hnone | ⟨other, w, hne, hother, hsame⟩⟩ := hs
  · have hattr : v.ip ≠ session.ip := fun heq => by
      rw [heq, hip] at hnone
      cases hnone
    refine ⟨k, v, hstays (key_ne_of_attr_ne hk h hattr) hk, .inl ?_⟩
    exact (Table.erase_of_ne hattr _).trans hnone
  · by_cases hattr : v.ip = session.ip
    · have herased : (s.without fd session.ip).byIp session.ip = none := Table.erase_self ..
      by_cases hkfd : k = fd
      · subst hkfd
        exact ⟨other, w, hstays hne hother, .inl (by rw [hsame, hattr, herased])⟩
      · exact ⟨k, v, hstays hkfd hk, .inl (by rw [hattr, herased])⟩
    · have hattr' : w.ip ≠ session.ip := hsame ▸ hattr
      exact ⟨k, v, hstays (key_ne_of_attr_ne hk h hattr) hk, .inr ⟨other, w, hne,
        hstays (key_ne_of_attr_ne hother h hattr') hother, hsame⟩⟩

theorem disconnect_clings (fd : Fd) (s : PeerNode) :
    Respects (fun s s' => s.Clings → s'.Clings) (fun _ => True) (disconnectFromPeer fd) s := by
  cases h : s.byFd fd with
  | none =>
    refine ⟨fun hs => ?_, fun _ => trivial⟩
    rw [finalState_error (disconnect_gone h)]
    exact hs
  | some session =>
    cases hip : s.byIp session.ip with
    | none => exact .of_ok (disconnect_not_found h hip) id
    | some fd' => exact .of_ok (disconnect_found h hip) fun hs => hs.without h hip

/-- Also after the whole loop, and after one that does not come to its end. -/
theorem disconnectAll_clings (peerFds : List Fd) (s : PeerNode) :
    Respects (fun s s' => s.Clings → s'.Clings) (fun _ => True) (disconnectAll peerFds) s := by
  induction peerFds generalizing s with
  | nil => exact .pure _ id
  | cons fd peerFds ih =>
    have hturn := (disconnect_clings fd s).bind_pure fun _ => ()
    exact hturn.bind (fun _ s' _ => ih s') (fun _ h => h) fun _ _ h h' hs => h' (h hs)

/-- Without a shared address every session is found, and removed. By induction on the list: each
    descriptor occurs once, so what is still to be removed is still there. -/
theorem disconnectAll_distinct {peerFds : List Fd} (hs : s.FoundByIp)
    (hdistinct : Distinct Session.ip s.byFd) (hnodup : peerFds.Nodup)
    (hmem : ∀ fd ∈ peerFds, (s.byFd fd).isSome) :
    ∃ s', disconnectAll peerFds s = .ok () s' ∧
      ∀ fd, s'.byFd fd = if fd ∈ peerFds then none else s.byFd fd := by
  induction peerFds generalizing s with
  | nil => exact ⟨s, rfl, fun _ => by simp⟩
  | cons fd peerFds ih =>
    obtain ⟨hfd, hnodup⟩ := List.nodup_cons.mp hnodup
    obtain ⟨session, h⟩ := Option.isSome_iff_exists.mp (hmem fd List.mem_cons_self)
    obtain ⟨fd', -, hip, -, -⟩ := hs fd session h
    have hturn : (disconnectFromPeer fd >>= fun _ => (pure () : PeerM Unit)) s
        = .ok () (s.without fd session.ip) := bind_ok (disconnect_found h hip)
    have hother : ∀ other ≠ fd, (s.without fd session.ip).byFd other = s.byFd other :=
      fun other hne => Table.erase_of_ne hne ..
    have hmem' : ∀ other ∈ peerFds, ((s.without fd session.ip).byFd other).isSome := by
      intro other hin
      rw [hother other fun heq => hfd (heq ▸ hin)]
      exact hmem other (List.mem_cons_of_mem _ hin)
    obtain ⟨s', hrest, hbyFd⟩ := ih ((hs.erase_iff h).mpr (hdistinct fd session h))
      (hdistinct.erase fd) hnodup hmem'
    refine ⟨s', (bind_ok hturn).trans hrest, fun other => ?_⟩
    rw [hbyFd other]
    by_cases heq : other = fd
    · subst heq
      simp [PeerNode.without]
    · simp [heq, hother other heq]

theorem not_clings_iff (hs : s.FoundByIp) : ¬s.Clings ↔ Distinct Session.ip s.byFd := by
  constructor
  · intro h fd session hfd other session' hother hne hsame
    exact h ⟨fd, session, hfd, .inr ⟨other, session', hne, hother, hsame⟩⟩
  · rintro hdistinct ⟨fd, session, hfd, hnone | ⟨other, session', hne, hother, hsame⟩⟩
    · obtain ⟨fd', -, hip, -, -⟩ := hs fd session hfd
      rw [hnone] at hip
      cases hip
    · exact hdistinct fd session hfd other session' hother hne hsame

/-- The loop removes all sessions exactly if no two share an address. From left to right by what
    clings; from right to left by running it. -/
theorem disconnectAll_empties_iff {peerFds : List Fd} (hs : s.FoundByIp) (hfds : s.Lists peerFds) :
    (finalState (disconnectAll peerFds) s).byFd = .empty ↔ Distinct Session.ip s.byFd := by
  constructor
  · intro hempty
    rw [← not_clings_iff hs]
    intro hclings
    obtain ⟨fd, session, hfd, -⟩ := (disconnectAll_clings peerFds s).state hclings
    rw [hempty] at hfd
    cases hfd
  · intro hdistinct
    obtain ⟨s', hrun, hbyFd⟩ := disconnectAll_distinct hs hdistinct hfds.nodup
      fun fd => (hfds.mem_iff fd).mp
    rw [finalState_ok hrun]
    funext fd
    rw [hbyFd fd]
    split
    · rfl
    · rename_i hout
      rw [hfds.mem_iff, Option.not_isSome_iff_eq_none] at hout
      exact hout

/-- **`stop` ends all sessions exactly if** there are none, or the node runs and no two peers share
    an address. A node that does not run returns at once and keeps what it has. -/
theorem stop_empties_iff {peerFds : List Fd} (hs : s.FoundByIp) (hfds : s.Lists peerFds) :
    (finalState (stop peerFds) s).byFd = .empty ↔
      s.byFd = .empty ∨ (s.running = true ∧ Distinct Session.ip s.byFd) := by
  cases hrunning : s.running with
  | false =>
    have hstop : stop peerFds s = .ok () s := by
      unfold stop
      rw [get_bind_run, hrunning]
      rfl
    rw [finalState_ok hstop]
    simp
  | true =>
    have hstop : stop peerFds s = (disconnectAll peerFds >>= fun _ =>
        modify fun s => { s with running := false, peers := .empty }) s := by
      unfold stop
      rw [get_bind_run, hrunning]
      rfl
    have hkeeps : (finalState (stop peerFds) s).byFd
        = (finalState (disconnectAll peerFds) s).byFd := by
      rw [finalState_congr hstop]
      cases hrun : disconnectAll peerFds s with
      | ok u s' =>
        rw [finalState_bind_ok hrun, finalState_ok hrun]
        rfl
      | error e s' => rw [finalState_bind_error hrun, finalState_error hrun]
    rw [hkeeps, disconnectAll_empties_iff hs hfds]
    refine ⟨fun h => .inr ⟨rfl, h⟩, ?_⟩
    rintro (hempty | ⟨-, hdistinct⟩)
    · rw [hempty]
      intro fd session h
      cases h
    · exact hdistinct

/-! ## Runs -/

/-- **Disconnecting removes peers exactly as long as they do not share addresses.** For every
    sequence of calls on a node that has no session yet, whatever it has been given as callbacks:
    every disconnect of a registered peer removes it and nothing else, and `stop` after them
    removes the rest, if and only if no peer is disconnected while another one has its address,
    and at `stop` there is no peer, or the node runs and no two have the same address. -/
theorem disconnects_remove_iff {start : PeerNode} (hstart : start.byFd = .empty)
    (calls : List PeerCall) {peerFds : List Fd} (hfds : (start.run calls).Lists peerFds) :
    (Along PeerNode.step Clean start calls ∧
        (finalState (stop peerFds) (start.run calls)).byFd = .empty) ↔
      (Along PeerNode.step AddressUnshared start calls ∧
        ((start.run calls).byFd = .empty ∨
          (start.run calls).running = true ∧ Distinct Session.ip (start.run calls).byFd)) := by
  have hfound : start.FoundByIp := by
    rw [FoundByIp, hstart]
    exact indexed_empty
  have hkeep : ∀ s call, FoundByIp s → Clean s call → FoundByIp (s.step call) :=
    fun s call hs hclean => hclean.foundByIp hs
  rw [← Along.iff_of_invariant (fun s call hs => clean_iff hs call) hkeep hfound calls]
  exact and_congr_right fun hclean => stop_empties_iff (foundByIp_of_clean hfound hclean) hfds

/-- A session over TCP. -/
def Session.tcp (fd : Fd) (ip : Bytes) : Session :=
  { fd := fd, ip := ip, transport := .stream (.tcp {}) }

/-- Two peers with addresses of their own: one is disconnected, the other one is there at `stop`. -/
theorem two_addresses_removed :
    let start : PeerNode := { callbacks := { onPeerDisconnected := true }, running := true }
    let calls : List PeerCall := [.registerPeerConnection (.tcp 4 (bytes "10.0.0.1")),
      .registerPeerConnection (.tcp 5 (bytes "10.0.0.2")), .disconnectFromPeer 4]
    Along PeerNode.step Clean start calls ∧
      (finalState (stop [5]) (start.run calls)).byFd = .empty := by
  intro start calls
  let both : Table Fd Session := (Table.empty.insert 4 (.tcp 4 (bytes "10.0.0.1"))).insert 5
    (.tcp 5 (bytes "10.0.0.2"))
  have hboth : ∀ {fd session}, both fd = some session → fd ≠ 4 →
      fd = 5 ∧ session = .tcp 5 (bytes "10.0.0.2") := by
    intro fd session h h4
    by_cases h5 : fd = 5
    · subst h5
      exact ⟨rfl, (Option.some.inj h).symm⟩
    · have hnone : both fd = none := (Table.insert_of_ne h5 ..).trans (Table.insert_of_ne h4 ..)
      rw [hnone] at h
      cases h
  have hfinal : ∀ {fd session}, (start.run calls).byFd fd = some session →
      fd = 5 ∧ session = .tcp 5 (bytes "10.0.0.2") := by
    intro fd session (h : both.erase 4 fd = some session)
    by_cases h4 : fd = 4
    · rw [h4, Table.erase_self] at h
      cases h
    · rw [Table.erase_of_ne h4] at h
      exact hboth h h4
  have hfds : (start.run calls).Lists [5] := by
    refine ⟨by decide, fun fd => ?_⟩
    rw [List.mem_singleton, Option.isSome_iff_exists]
    refine ⟨?_, fun ⟨session, h⟩ => (hfinal h).1⟩
    rintro rfl
    exact ⟨_, rfl⟩
  refine (disconnects_remove_iff rfl calls hfds).mpr
    ⟨⟨trivial, trivial, ?_, trivial⟩, .inr ⟨rfl, ?_⟩⟩
  · intro session h other session' hother hne
    rw [← Option.some.inj h, (hboth hother hne).2]
    decide +kernel
  · intro fd session h other session' hother hne
    exact absurd ((hfinal hother).1.trans (hfinal h).1.symm) hne

/-- Two peers at one address, as in a test on one machine. The second one cannot be disconnected
    any more: the call returns 1 and the peer stays, also after `stop`. -/
theorem second_peer_stays :
    let start : PeerNode := { callbacks := { onPeerDisconnected := true }, running := true }
    let calls : List PeerCall := [.registerPeerConnection (.tcp 4 (bytes "127.0.0.1")),
      .registerPeerConnection (.tcp 5 (bytes "127.0.0.1")), .disconnectFromPeer 4,
      .disconnectFromPeer 5]
    ¬Along PeerNode.step Clean start calls ∧
      ((start.run calls).byFd 5).isSome ∧ (start.run calls).byIp (bytes "127.0.0.1") = none ∧
      (start.run calls).disconnected = [4] ∧
      ((finalState (stop [5]) (start.run calls)).byFd 5).isSome := by
  intro start calls
  refine ⟨fun h => ?_, rfl, rfl, rfl, rfl⟩
  have hgone := (h.2.2.2.1 rfl).session
  cases hgone

end PeerNode

end Messenger
