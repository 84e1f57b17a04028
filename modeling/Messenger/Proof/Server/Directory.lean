import Messenger.Proof.Server.Access

/-!
# The key directory

Who is registered has logged in, and what the server tells others about them is what they
brought with that login. The directory is written in two places only, by a login and by an exit;
`step_directory` says so, with the login that it was.

That the session is still the one of that login is where the runs come in: `CreatedSession` finds in
the events the login that the current session goes back to, and there is only one
(`CreatedSession.unique`).

A login that is refused changes nothing, so what has to be found for an entry is the login that was
accepted, and several with the same name may have come before. `OpensSession` says what singles it
out: name and connection were free before it, and the connection has had the name ever since. Two
such logins cannot both be there, because after the earlier one the connection was not free.

In the run lemma the only event to look at closely is an exit, by which a session ends and with it
the entry. All others leave the entries of other users alone (`step_findUser`), so the login behind
them is the one it was.
-/

set_option autoImplicit false

namespace Messenger

open Messenger.Lib

/-- The keys that a `LOGIN` brings. -/
def Message.loginKeys (msg : Message) : User where
  publicDHKey := msg.getMeta 2
  publicIdentityKey := msg.getMeta 3
  signature := msg.getMeta 4

/-! ## What an event does to the directory -/

/-- The directory changes by accepted logins and by exits, each on the connection it comes
    from. -/
inductive DirectoryChange (e : ServerEvent) (s s' : ServerContext) : Prop
  | keeps (husers : s'.users = s.users) (hsessions : s'.sessions = s.sessions)
  | login (now : UInt64) (fd : Fd) (msg : Message) (he : e = .message now fd msg)
      (hlogin : msg.IsLogin) (hfree : s.sessions.fdToName fd = none)
      (hfresh : s.users (msg.getMeta 1) = none)
      (husers : s'.users = s.users.insert (msg.getMeta 1) msg.loginKeys)
      (hsessions : s'.sessions = s.sessions.bind fd (msg.getMeta 1))
  | exits (u : Name) (hu : s.sessions.fdToName e.fd = some u)
      (husers : s'.users = s.users.removeUser u) (hsessions : s'.sessions = s.sessions.unbind e.fd)

theorem DirectoryChange.of_services {e : ServerEvent} {s s' : ServerContext}
    (h : s'.services = s.services) : DirectoryChange e s s' :=
  .keeps (congrArg ServiceState.users h) (congrArg ServiceState.sessions h)

/-- An accepted login registers the keys it brings. A refused one changes nothing. -/
def Registers (fd : Fd) (u : Name) (keys : User) (s s' : ServiceState) : Prop :=
  s' = s ∨ s.sessions.fdToName fd = none ∧ s.users u = none ∧
    s' = { s with users := s.users.insert u keys, sessions := s.sessions.bind fd u }

/-- A login does one of two things to the directory: it is refused and nothing changes, or it puts
    in the keys that it has brought, under a name and on a connection that were free. -/
theorem login_registers (username dh identity sig : Bytes) (s : ServerContext) :
    Respects (fun s s' => Registers s.fd username
      { publicDHKey := dh, publicIdentityKey := identity, signature := sig } s.services s'.services)
      Failure.IsThrown (ServerApplicationService.login username dh identity sig) s := by
  apply Respects.get_bind
  split
  · exact (OnlySends.send _ _ s).mono fun _ h => .inl h.services
  · rename_i hfree
    split
    · exact (OnlySends.send _ _ s).mono fun _ h => .inl h.services
    · rename_i users hregister
      obtain ⟨hfresh, rfl⟩ := registerUser_ok hregister
      exact Respects.set_bind (OnlySends.sendText _ _ _) fun _ h =>
        .inr ⟨getUsername_error hfree, hfresh, h.services⟩

theorem step_registers {msg : Message} (h : msg.IsLogin) (s : ServerContext) (now : UInt64)
    (fd : Fd) :
    Registers fd (msg.getMeta 1) msg.loginKeys s.services
      (s.step (.message now fd msg)).services := by
  rw [step_command h.type, h.dispatch .login rfl]
  exact (login_registers _ _ _ _ { s with now := now, fd := fd }).state

theorem step_login {msg : Message} (h : msg.IsLogin) (s : ServerContext) (now : UInt64) (fd : Fd) :
    DirectoryChange (.message now fd msg) s (s.step (.message now fd msg)) := by
  rcases step_registers h s now fd with hsame | ⟨hfree, hfresh, hnew⟩
  · exact .of_services hsame
  · exact .login now fd msg rfl h hfree hfresh (congrArg ServiceState.users hnew)
      (congrArg ServiceState.sessions hnew)

/-- Any other event is no login in disguise. The case to look at is a connection without a name,
    where the list of changes has a login in it; but from there only a login gets through. -/
theorem step_not_login {e : ServerEvent} {fd : Fd} (he : e.fd = fd) {msg : Message}
    (h : ¬msg.IsLogin) (s : ServerContext) (now : UInt64) :
    DirectoryChange e s (s.step (.message now fd msg)) := by
  cases hname : s.sessions.fdToName fd with
  | none =>
    -- nobody: everything is refused, and a file goes past the services
    by_cases hfile : msg.getType.IsFile
    · rw [step_file hfile]
      exact .of_services (forwardFile_onlySends msg _).state.services
    · exact .of_services ((step_anonymous hname now fun hf => absurd hf hfile).services h)
  | some u =>
    have hchange := step_change s (.message now fd msg)
    generalize ht : (s.step (.message now fd msg)).services = t at hchange
    have husers : (s.step (.message now fd msg)).users = t.users := congrArg ServiceState.users ht
    have hsessions : (s.step (.message now fd msg)).sessions = t.sessions :=
      congrArg ServiceState.sessions ht
    cases hchange with
    | none => exact .keeps husers hsessions
    | login hfree _ => exact absurd (hname.symm.trans hfree) (by simp)
    | createRoom => exact .keeps husers hsessions
    | joinRoom => exact .keeps husers hsessions
    | post => exact .keeps husers hsessions
    | @exit v hv =>
      subst he
      exact .exits v hv husers hsessions

/-- A disconnect is an `EXIT` from the connection. -/
theorem step_disconnect_eq (s : ServerContext) (now : UInt64) (fd : Fd) :
    ∃ msg : Message, msg.IsCommand .exit ∧
      s.step (.disconnect now fd) = s.step (.message now fd msg) := by
  obtain ⟨msg, hconstruct, hcontent⟩ := construct_ok 1 .command { s with now := now, fd := fd }
    (show [[CommandType.exit.toByte]].length < 256 by decide)
    (show compactSize [[CommandType.exit.toByte]] [] < 2 ^ 32 by decide)
  obtain ⟨htype, hmeta, -⟩ := Message.of_content hcontent
  refine ⟨msg, ⟨htype, by rw [hmeta 0]; rfl⟩, ?_⟩
  rw [step_message_eq_dispatch]
  calc s.step (.disconnect now fd)
      = finalState (construct [] 1 [[CommandType.exit.toByte]] .command >>= fun msg =>
          ServerMessageDispatcher.dispatch msg >>= fun _ => Pure.pure ())
            { s with now := now, fd := fd } := rfl
    _ = finalState (ServerMessageDispatcher.dispatch msg >>= fun _ => Pure.pure ())
          { s with now := now, fd := fd } := finalState_bind_ok hconstruct
    _ = finalState (ServerMessageDispatcher.dispatch msg) { s with now := now, fd := fd } :=
          finalState_bind_pure _ _ _

/-- **One event** does to the directory what a login or an exit does, or nothing. The login is
    named, since what is to be said later is whose keys these are. -/
theorem step_directory (s : ServerContext) (e : ServerEvent) : DirectoryChange e s (s.step e) := by
  cases e with
  | message now fd msg =>
    by_cases hlogin : msg.IsLogin
    · exact step_login hlogin s now fd
    · exact step_not_login rfl hlogin s now
  | disconnect now fd =>
    obtain ⟨msg, hexit, hstep⟩ := step_disconnect_eq s now fd
    rw [hstep]
    refine step_not_login rfl (fun hlogin => ?_) s now
    exact absurd (hlogin.code.symm.trans hexit.code) (by decide)

/-! ## The login behind a session -/

theorem serverAfter_concat (events : List ServerEvent) (e : ServerEvent) :
    serverAfter (events ++ [e]) = (serverAfter events).step e := by
  unfold serverAfter
  rw [List.foldl_append]
  rfl

/-- Between the events `before` and `after`, `login` opens a session that is still open: its
    connection and its name were free, and the connection has had the name ever since. -/
structure OpensSession (before : List ServerEvent) (now : UInt64) (fd : Fd) (login : Message)
    (after : List ServerEvent) : Prop where
  isLogin : login.IsLogin
  connection_free : ∀ v, (serverAfter before).sessions.getUsername fd ≠ .ok v
  name_free : ∀ user, (serverAfter before).users.findUser (login.getMeta 1) ≠ .ok user
  since : ∀ mid, mid <+: after →
    (serverAfter (before ++ .message now fd login :: mid)).sessions.getUsername fd
      = .ok (login.getMeta 1)

/-- `login` has created the session that `u` now has on `fd`. -/
def CreatedSession (events : List ServerEvent) (u : Name) (fd : Fd) (login : Message) : Prop :=
  ∃ before now after, events = before ++ .message now fd login :: after ∧ login.getMeta 1 = u ∧
    OpensSession before now fd login after

section Session

variable {events : List ServerEvent} {u : Name} {fd fd' : Fd} {login login' : Message}

theorem CreatedSession.current (h : CreatedSession events u fd login) :
    (serverAfter events).sessions.getUsername fd = .ok u := by
  obtain ⟨before, now, after, rfl, rfl, hopens⟩ := h
  exact hopens.since after (List.prefix_refl _)

theorem CreatedSession.concat (h : CreatedSession events u fd login) {e : ServerEvent}
    (hstill : ((serverAfter events).step e).sessions.getUsername fd = .ok u) :
    CreatedSession (events ++ [e]) u fd login := by
  obtain ⟨before, now, after, rfl, rfl, hopens⟩ := h
  refine ⟨before, now, after ++ [e], by simp, rfl, { hopens with since := fun mid hmid => ?_ }⟩
  rcases List.prefix_concat_iff.mp hmid with rfl | hmid
  · rw [← serverAfter_concat] at hstill
    simpa using hstill
  · exact hopens.since mid hmid

/-- Since it was opened, the connection has not been free, so no later login opened it. -/
theorem OpensSession.not_later {before after mid rest : List ServerEvent} {now : UInt64}
    (h : OpensSession before now fd login after) (hafter : after = mid ++ rest)
    (hfree : ∀ v, (serverAfter (before ++ .message now fd login :: mid)).sessions.getUsername fd
      ≠ .ok v) : False := by
  subst hafter
  exact hfree _ (h.since mid (List.prefix_append _ _))

/-- **There is one login behind a session.** -/
theorem CreatedSession.unique (h : CreatedSession events u fd login)
    (h' : CreatedSession events u fd' login') : fd' = fd ∧ login' = login := by
  have hfd : fd' = fd := by
    obtain ⟨L, -, hrep⟩ := represents_run events
    have hto := hrep.sessions_inverse.mp h.current
    have hto' := hrep.sessions_inverse.mp h'.current
    exact Except.ok.inj (hto'.symm.trans hto)
  subst hfd
  obtain ⟨before, now, after, rfl, rfl, hopens⟩ := h
  obtain ⟨before', now', after', heq, -, hopens'⟩ := h'
  refine ⟨rfl, ?_⟩
  -- of two places in the run, the later one finds the connection taken
  rcases List.append_eq_append_iff.mp heq with ⟨mid, rfl, hmid⟩ | ⟨mid, rfl, hmid⟩
  · cases mid with
    | nil =>
      rw [List.nil_append] at hmid
      cases hmid
      rfl
    | cons e mid =>
      rw [List.cons_append] at hmid
      obtain ⟨rfl, hafter⟩ := List.cons.inj hmid
      exact (hopens.not_later hafter hopens'.connection_free).elim
  · cases mid with
    | nil =>
      rw [List.nil_append] at hmid
      cases hmid
      rfl
    | cons e mid =>
      rw [List.cons_append] at hmid
      obtain ⟨rfl, hafter⟩ := List.cons.inj hmid
      exact (hopens'.not_later hafter hopens.connection_free).elim

end Session

/-! ## Runs -/

theorem getUsername_unbind {m : SessionManager} {fd fd₀ : Fd} {u v : Name}
    (h : m.getUsername fd = .ok u) (hv : m.fdToName fd₀ = some v) (hne : u ≠ v) :
    (m.unbind fd₀).getUsername fd = .ok u := by
  rw [getUsername_ok_iff] at h ⊢
  have hfd : fd ≠ fd₀ := by
    rintro rfl
    exact hne (Option.some.inj (h.symm.trans hv))
  unfold SessionManager.unbind
  rw [hv]
  exact (Table.erase_of_ne hfd _).trans h

theorem getUsername_bind {m : SessionManager} {fd fd₀ : Fd} {u v : Name}
    (h : m.getUsername fd = .ok u) (hfree : m.fdToName fd₀ = none) :
    (m.bind fd₀ v).getUsername fd = .ok u := by
  rw [getUsername_ok_iff] at h ⊢
  have hfd : fd ≠ fd₀ := by
    rintro rfl
    rw [hfree] at h
    cases h
  exact (Table.insert_of_ne hfd _ _).trans h

/-- A login that is accepted opens a session. Its `since` is about the empty rest of the run, so it
    is what the login has just written. -/
theorem createdSession_of_login {events : List ServerEvent} {now : UInt64} {fd : Fd}
    {login : Message} (hlogin : login.IsLogin)
    (hfree : (serverAfter events).sessions.fdToName fd = none)
    (hfresh : (serverAfter events).users (login.getMeta 1) = none)
    (hsessions : ((serverAfter events).step (.message now fd login)).sessions
      = (serverAfter events).sessions.bind fd (login.getMeta 1)) :
    CreatedSession (events ++ [.message now fd login]) (login.getMeta 1) fd login := by
  refine ⟨events, now, [], rfl, rfl, {
    isLogin := hlogin
    connection_free := fun v hv => ?_
    name_free := fun user huser => findUser_ok_iff.mp ⟨user, huser⟩ hfresh
    since := fun mid hmid => ?_ }⟩
  · rw [getUsername_ok_iff, hfree] at hv
    cases hv
  · obtain rfl := List.prefix_nil.mp hmid
    rw [serverAfter_concat, hsessions, getUsername_ok_iff]
    exact Table.insert_self ..

/-- Everyone in the directory has a login behind them, which brought the keys that are there. -/
def DirectoryFromLogins (events : List ServerEvent) : Prop :=
  ∀ u user, (serverAfter events).users u = some user →
    ∃ fd login, CreatedSession events u fd login ∧ user = login.loginKeys

/-- One more event. For whoever had an entry before, the login is the old one, provided that the
    event leaves the session open; that is `hkept`, and the three cases show it. The one new entry
    is that of a login, which is then the event itself. -/
theorem directoryFromLogins_step {events : List ServerEvent} (h : DirectoryFromLogins events)
    (e : ServerEvent) : DirectoryFromLogins (events ++ [e]) := by
  intro u user huser
  rw [serverAfter_concat] at huser
  -- a session that the event leaves open keeps its login
  have hkept : (serverAfter events).users u = some user →
      (∀ fd, (serverAfter events).sessions.getUsername fd = .ok u →
        ((serverAfter events).step e).sessions.getUsername fd = .ok u) →
      ∃ fd login, CreatedSession (events ++ [e]) u fd login ∧ user = login.loginKeys := by
    intro hold hstill
    obtain ⟨fd, login, hcreated, hkeys⟩ := h u user hold
    exact ⟨fd, login, hcreated.concat (hstill fd hcreated.current), hkeys⟩
  cases step_directory (serverAfter events) e with
  | keeps husers hsessions =>
    rw [husers] at huser
    rw [hsessions] at hkept
    exact hkept huser fun _ hname => hname
  | login now fd msg he hlogin hfree hfresh husers hsessions =>
    subst he
    rw [husers] at huser
    by_cases hu : u = msg.getMeta 1
    · subst hu
      rw [Table.insert_self] at huser
      exact ⟨fd, msg, createdSession_of_login hlogin hfree hfresh hsessions,
        (Option.some.inj huser).symm⟩
    · rw [Table.insert_of_ne hu] at huser
      rw [hsessions] at hkept
      exact hkept huser fun _ hname => getUsername_bind hname hfree
  | exits v hv husers hsessions =>
    -- only the one who leaves loses the session, and that one has lost the entry too
    rw [husers] at huser
    have hne : u ≠ v := by
      rintro rfl
      rw [UserService.removeUser, Table.erase_self] at huser
      cases huser
    rw [UserService.removeUser, Table.erase_of_ne hne] at huser
    rw [hsessions] at hkept
    exact hkept huser fun _ hname => getUsername_unbind hname hv hne

/-- **The keys in the directory come from the logins behind the sessions**, in every run. -/
theorem directoryFromLogins_run (events : List ServerEvent) : DirectoryFromLogins events := by
  induction events using List.reverseRecOn with
  | nil =>
    intro u user huser
    cases huser
  | append_singleton events e ih => exact directoryFromLogins_step ih e

/-- An entry of the directory is nobody else's to change, and not a login's either. Another
    connection could only overwrite it by a login under the same name, which is taken, or erase it
    by the exit of the same user, who has one connection only. Both are ruled out by the lobby, not
    by a check here. -/
theorem step_findUser {s : ServerContext} {L : Lobby Fd Name} (hrep : Represents s.services L)
    {u : Name} {fd : Fd} (hu : s.sessions.getUsername fd = .ok u) {e : ServerEvent}
    (he : e.fd ≠ fd ∨ ∃ now msg, e = .message now fd msg ∧ msg.IsLogin) :
    (s.step e).users.findUser u = s.users.findUser u := by
  rcases he with hfd | ⟨now, msg, rfl, hlogin⟩
  · cases step_directory s e with
    | keeps husers _ => rw [husers]
    | login now fd' msg _ _ _ hfresh husers _ =>
      have hregistered := findUser_ok_iff.mp (hrep.registered_iff.mpr ⟨fd, hu⟩)
      have hne : u ≠ msg.getMeta 1 := by
        rintro rfl
        exact hregistered hfresh
      unfold UserService.findUser
      rw [husers, Table.insert_of_ne hne]
    | exits v hv husers _ =>
      -- `u` is on one connection only
      have hne : u ≠ v := by
        rintro rfl
        have hto := hrep.sessions_inverse.mp hu
        have hto' := hrep.sessions_inverse.mp (getUsername_ok_iff.mpr hv)
        exact hfd (Except.ok.inj (hto'.symm.trans hto))
      unfold UserService.findUser
      rw [husers, UserService.removeUser, Table.erase_of_ne hne]
  · rcases step_registers hlogin s now fd with hsame | ⟨hfree, -⟩
    · exact congrArg (fun t => UserService.findUser t.users u) hsame
    · exact absurd ((getUsername_ok_iff.mp hu).symm.trans hfree) (by simp)

/-! ## What the server tells about someone -/

/-- The only message that is made and sent says `c`, and it is sent if `P` holds. -/
structure TellsOnly (P : Prop) (c : Content) (s s' : ServerContext) : Prop where
  only : AllSent (fun _ packet => ∀ m, packet = .serialized m → m.content = c) s s'
  told : P → ∃ g m, s'.outbox = s.outbox ++ [(g, .serialized m)]

theorem TellsOnly.of_told {P : Prop} {c : Content} {s s' : ServerContext} {g : Fd} {m : Message}
    (hsent : s'.outbox = s.outbox ++ [(g, .serialized m)]) (hm : m.content = c) :
    TellsOnly P c s s' where
  only := .one hsent fun _ hm' => Packet.serialized.inj hm' ▸ hm
  told _ := ⟨g, m, hsent⟩

/-- No packet says anything about anyone: a fixed reply, or nothing. -/
theorem TellsOnly.of_refused {P : Prop} {c : Content} {s s' : ServerContext} (hP : ¬P)
    (h : AllSent (fun _ packet => ∀ m, packet ≠ .serialized m) s s') : TellsOnly P c s s' where
  only := by
    obtain ⟨sent, hsent, hnone⟩ := h
    exact ⟨sent, hsent, fun g packet hmem m hm => absurd hm (hnone g packet hmem m)⟩
  told hp := absurd hp hP

/-- The answer to a `GET_PUBKEY`. -/
def pubkeyReply (u : Name) (user : User) : Content :=
  .plain .response [[CommandType.getPubkey.toByte], u, user.publicIdentityKey, user.signature]
    user.publicDHKey

/-- There is an answer for every name but the empty one, if it is not too large. -/
structure Answerable (u : Name) (user : User) : Prop where
  name : u ≠ []
  fits : compactSize (pubkeyReply u user).metadata user.publicDHKey < 2 ^ 32

section Tell

variable {s : ServerContext} {u : Name} {user : User}

/-- What a request for the keys of `u` is answered with. A name that is empty gets the reply for a
    wrong usage even if someone is registered under it. -/
theorem sendPubkey_tells (huser : s.users.findUser u = .ok user) :
    TellsOnly (Answerable u user) (pubkeyReply u user) s
      (finalState (ServerApplicationService.sendPubkey u) s) := by
  by_cases hname : u = []
  · subst hname
    exact .of_refused (fun h => h.name rfl) (.one rfl fun m hm => by cases hm)
  have hrun : ServerApplicationService.sendPubkey u s
      = (construct user.publicDHKey 4 (pubkeyReply u user).metadata .response >>= fun msg =>
          send s.fd (.serialized msg)) s := by
    unfold ServerApplicationService.sendPubkey
    rw [get_bind_run, if_neg (by simpa using hname), huser]
    rfl
  by_cases hfits : compactSize (pubkeyReply u user).metadata user.publicDHKey < 2 ^ 32
  · obtain ⟨m, hconstruct, hcontent⟩ := construct_ok 4 .response s
      (show (pubkeyReply u user).metadata.length < 256 by simp [pubkeyReply, Content.plain]) hfits
    rw [finalState_ok (hrun.trans (bind_ok hconstruct))]
    exact .of_told rfl hcontent
  · obtain ⟨x, hx⟩ := construct_too_large 4 .response s hfits
    rw [finalState_error (hrun.trans (bind_error hx))]
    exact .of_refused (fun h => hfits h.fits) (.refl _ s)

theorem deliverCipherMessage_tells {fd : Fd} (hu : s.sessions.getUsername fd = .ok u)
    (huser : s.users.findUser u = .ok user) (msg : Message) :
    TellsOnly (msg.Forwardable s user)
      (.plain .cipherMessage (msg.forwardedEntries user) msg.getPayload) s
      (finalState (ServerApplicationService.deliverCipherMessage fd msg) s) := by
  by_cases hforward : msg.Forwardable s user
  · obtain ⟨⟨g, hg⟩, hfits⟩ := hforward
    obtain ⟨m, hrun, hcontent⟩ := deliverCipherMessage_forwards hu huser hg hfits
    rw [finalState_ok hrun]
    exact .of_told rfl hcontent
  · exact .of_refused hforward (deliverCipherMessage_refuses hu huser hforward)

end Tell

/-- **The key directory keeps what the logins brought.** Whoever is registered has logged in
    on the connection they are on, and as long as the session lasts, the keys that the server
    hands out for them and puts into their private messages are those of that login. No
    other connection and no login changes them. -/
theorem directory_keeps_login_keys (events : List ServerEvent) (u : Name) (user : User)
    (hu : (serverAfter events).users.findUser u = .ok user) :
    let s := serverAfter events
    (∃ fd login, CreatedSession events u fd login) ∧
    ∀ fd login, CreatedSession events u fd login →
      (∀ now g request, request.IsCommand .getPubkey → request.getMeta 1 = u →
        TellsOnly (Answerable u login.loginKeys) (pubkeyReply u login.loginKeys) s
          (s.step (.message now g request))) ∧
      (∀ now msg, msg.getType = .cipherMessage →
        TellsOnly (msg.Forwardable s login.loginKeys)
          (.plain .cipherMessage (msg.forwardedEntries login.loginKeys) msg.getPayload) s
          (s.step (.message now fd msg))) ∧
      (∀ e : ServerEvent, (e.fd ≠ fd ∨ ∃ now msg, e = .message now fd msg ∧ msg.IsLogin) →
        (s.step e).users.findUser u = .ok login.loginKeys) := by
  intro s
  have huser : s.users u = some user := by
    unfold UserService.findUser at hu
    split at hu
    · cases hu
    · cases hu
      assumption
  obtain ⟨fd, login, hcreated, rfl⟩ := directoryFromLogins_run events u user huser
  refine ⟨⟨fd, login, hcreated⟩, fun fd' login' hcreated' => ?_⟩
  obtain ⟨rfl, rfl⟩ := hcreated.unique hcreated'
  refine ⟨fun now g request hrequest hname => ?_, fun now msg hmsg => ?_, fun e he => ?_⟩
  · have htells := sendPubkey_tells (s := { s with now := now, fd := g }) hu
    rw [step_command hrequest.type, hrequest.dispatch .getpub rfl]
    subst hname
    exact ⟨htells.only, htells.told⟩
  · have htells :=
      deliverCipherMessage_tells (s := { s with now := now, fd := fd' }) hcreated.current hu msg
    rw [step_cipherMessage hmsg]
    exact ⟨htells.only, fun h => htells.told ⟨h.recipient, h.fits⟩⟩
  · obtain ⟨L, -, hrep⟩ := represents_run events
    rw [step_findUser hrep hcreated.current he]
    exact hu

theorem directory_keeps_keys_of_alice :
    ∃ fd login, CreatedSession aliceAndBob (bytes "alice") fd login ∧
      ((serverAfter aliceAndBob).step (.disconnect 3 (fd + 1))).users.findUser (bytes "alice")
        = .ok login.loginKeys := by
  obtain ⟨⟨fd, login, hcreated⟩, hkeys⟩ := directory_keeps_login_keys aliceAndBob (bytes "alice")
    { publicDHKey := [0xA1], publicIdentityKey := [0xA2], signature := [0xA3] } rfl
  have hother : (ServerEvent.disconnect 3 (fd + 1)).fd ≠ fd := Int.ne_of_gt (Int.lt_succ fd)
  exact ⟨fd, login, hcreated, (hkeys fd login hcreated).2.2 _ (.inl hother)⟩

end Messenger
