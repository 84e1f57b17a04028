import Messenger.Lib.Run
import Messenger.Proof.Server.Leaving
import Messenger.Proof.Server.Recipients

/-!
# One order for everybody in a room

The history of a room only grows, and what is added to it is sent in the same step to every
member. So two members who stay in a room receive what is posted there in the same order, the
order of the history, whatever else the server sends them in between (`room_in_order`).

The source keeps no order on purpose. It follows from the posting and the copies being in one
handler: a post that is in the history has already been sent to all, before the next one can be.

Each event is shown to keep, for every room, the history and what its members have been sent
together (`PostsTo`). Most handlers write no history at all. Those that write a room, by adding a
member or taking one out, leave its history as it is, and only posting makes it longer. There the
loop over the members is what has to be looked at: a member is sent one copy, on the connection on
which the session manager has the name.

Over a run the pieces are put together by appending. That a user stays in the room on one
connection is an assumption about the run, and is all that is assumed.
-/

set_option autoImplicit false

namespace Messenger

open Messenger.Lib

variable {s s' s'' : ServerContext}

/-- The packets that bring `posted` to the connection `g`. -/
def copiesTo (g : Fd) (posted : List Message) : List (Fd × Packet) :=
  posted.map fun m => (g, .serialized m)

/-- From `s` to `s'`, all that is added to the history of a room is among `sent`, in order, for each
    of its members. The members are those before the step: who joins in the step has not been
    there. -/
structure PostsTo (s s' : ServerContext) (sent : List (Fd × Packet)) : Prop where
  outbox : s'.outbox = s.outbox ++ sent
  rooms : ∀ c chat, s.chats c = some chat → ∃ chat' posted,
    s'.chats c = some chat' ∧ chat'.messages = chat.messages ++ posted ∧
      ∀ u ∈ chat.getMembers, ∀ g, s.sessions.getFd u = .ok g → (copiesTo g posted).Sublist sent

def Posts (s s' : ServerContext) : Prop := ∃ sent, PostsTo s s' sent

abbrev PostsAt {α : Type} (x : ServerM α) (s : ServerContext) : Prop :=
  Respects Posts (fun _ => True) x s

theorem Posts.of_histories {P : Fd → Packet → Prop} (houtbox : AllSent P s s')
    (h : ∀ c chat, s.chats c = some chat →
      ∃ chat', s'.chats c = some chat' ∧ chat'.messages = chat.messages) : Posts s s' := by
  obtain ⟨sent, hsent, -⟩ := houtbox
  refine ⟨sent, hsent, fun c chat hchat => ?_⟩
  obtain ⟨chat', hchat', hmessages⟩ := h c chat hchat
  refine ⟨chat', [], hchat', ?_, fun u _ g _ => List.nil_sublist _⟩
  rw [hmessages, List.append_nil]

theorem Posts.of_chats {P : Fd → Packet → Prop} (houtbox : AllSent P s s')
    (h : s'.chats = s.chats) : Posts s s' :=
  .of_histories houtbox fun _ chat hchat => ⟨chat, h ▸ hchat, rfl⟩

theorem Answered.chats (h : Answered s s') : s'.chats = s.chats :=
  congrArg ServiceState.chats h.services

theorem Answered.posts (h : Answered s s') : Posts s s' := .of_chats h.sent h.chats

/-- What is answered first does not count: it changes neither the rooms nor the connections, and the
    copies come behind it. -/
theorem Answered.then_posts (h : Answered s s') (h' : Posts s' s'') : Posts s s'' := by
  obtain ⟨sent, hsent, -⟩ := h.sent
  obtain ⟨sent', hposts⟩ := h'
  have hsessions : s'.sessions = s.sessions := congrArg ServiceState.sessions h.services
  refine ⟨sent ++ sent', by rw [hposts.outbox, hsent, List.append_assoc], ?_⟩
  intro c chat hchat
  rw [← h.chats] at hchat
  obtain ⟨chat', posted, hchat', hmessages, hcopies⟩ := hposts.rooms c chat hchat
  refine ⟨chat', posted, hchat', hmessages, fun u hu g hg => ?_⟩
  rw [← hsessions] at hg
  exact (hcopies u hu g hg).trans (List.sublist_append_right ..)

theorem AnswersAt.posts {α : Type} {x : ServerM α} (h : AnswersAt x s) : PostsAt x s :=
  h.mono fun _ h => h.posts

/-- The chats are written, with the histories as they were, and then there is an answer. -/
theorem PostsAt.set_bind {α : Type} {f : PUnit → ServerM α} (h : AnswersAt (f ⟨⟩) s')
    (houtbox : s'.outbox = s.outbox)
    (hchats : ∀ c chat, s.chats c = some chat →
      ∃ chat', s'.chats c = some chat' ∧ chat'.messages = chat.messages) :
    PostsAt (set s' >>= f) s := by
  refine Respects.set_bind h fun t ht => ?_
  obtain ⟨sent, hsent, hP⟩ := ht.sent
  refine .of_histories (P := fun g _ => g = s'.fd) ⟨sent, houtbox ▸ hsent, hP⟩
    fun c chat hchat => ?_
  rw [ht.chats]
  exact hchats c chat hchat

theorem insert_histories {chats : ChatService} {c : Name} {chat₀ : Chat}
    (h : ∀ chat, chats c = some chat → chat₀.messages = chat.messages) :
    ∀ c' chat, chats c' = some chat →
      ∃ chat', chats.insert c chat₀ c' = some chat' ∧ chat'.messages = chat.messages := by
  intro c' chat hchat
  by_cases hc : c' = c
  · subst hc
    exact ⟨chat₀, Table.insert_self .., h chat hchat⟩
  · exact ⟨chat, by rw [Table.insert_of_ne hc, hchat], rfl⟩

/-! ## The operations -/

theorem addMember_messages (chat : Chat) (u : Name) :
    (chat.addMember u).2.messages = chat.messages := by
  unfold Chat.addMember
  split
  · rfl
  · split
    · rfl
    · rfl

theorem login_posts (username dh identity sig : Bytes) (s : ServerContext) :
    PostsAt (ServerApplicationService.login username dh identity sig) s := by
  refine .get_bind ?_
  split
  · exact (AnswersAt.send _ s).posts
  · split
    · exact (AnswersAt.send _ s).posts
    · rename_i users _
      exact PostsAt.set_bind (AnswersAt.sendText _
        { s with users := users, sessions := s.sessions.bind s.fd username }) rfl
        fun c chat hchat => ⟨chat, hchat, rfl⟩

theorem joinRoom_posts (chatName : Name) (s : ServerContext) :
    PostsAt (ServerApplicationService.joinRoom chatName) s := by
  refine .get_bind ?_
  split
  · exact (AnswersAt.send _ s).posts
  · rename_i u _
    split
    · exact (AnswersAt.send _ s).posts
    · split
      · exact (AnswersAt.send _ s).posts
      · exact (AnswersAt.send _ s).posts
      · exact (AnswersAt.sendText _ s).posts
      · rename_i chats hadd
        refine PostsAt.set_bind (AnswersAt.sendText _ { s with chats := chats }) rfl ?_
        show ∀ c chat, s.chats c = some chat →
          ∃ chat', chats c = some chat' ∧ chat'.messages = chat.messages
        unfold ChatService.addMember at hadd
        split at hadd
        · cases hadd
        · rename_i chat₀ hchat₀
          split at hadd
          · cases hadd
          · cases hadd
            refine insert_histories fun chat hchat => ?_
            rw [hchat₀] at hchat
            cases hchat
            exact addMember_messages chat₀ u

/-- A room that is made is one that was not there, so no history is overwritten. -/
theorem createRoom_posts (chatName : Name) (s : ServerContext) :
    PostsAt (ServerApplicationService.createRoom chatName) s := by
  refine .get_bind ?_
  split
  · exact (AnswersAt.send _ s).posts
  · split
    · exact (AnswersAt.send _ s).posts
    · split
      · exact (AnswersAt.send _ s).posts
      · rename_i chats hcreate
        refine PostsAt.set_bind (AnswersAt.sendText _ { s with chats := chats }) rfl ?_
        show ∀ c chat, s.chats c = some chat →
          ∃ chat', chats c = some chat' ∧ chat'.messages = chat.messages
        unfold ChatService.createChat at hcreate
        split at hcreate
        · cases hcreate
        · rename_i hnone
          cases hcreate
          refine insert_histories fun chat hchat => ?_
          rw [hnone] at hchat
          cases hchat

/-- Here the history of one room grows, and each member is sent what it grows by. The copies in the
    outbox are in the order of the members, but for one connection there is only one. -/
theorem sendGroupMessage_posts (chatName : Name) (message : Message) (s : ServerContext) :
    PostsAt (ServerApplicationService.sendGroupMessage chatName message) s := by
  by_cases hmember : ∃ u chat, s.sessions.getUsername s.fd = .ok u ∧ s.chats chatName = some chat ∧
      u ∈ chat.getMembers
  · obtain ⟨u, room, hu, hroom, hmem⟩ := hmember
    refine .of_ok (sendGroupMessage_member hu hroom hmem message) ⟨_, rfl, ?_⟩
    intro c chat hchat
    show ∃ chat' posted, s.chats.insert chatName (room.addMessage message) c = some chat' ∧ _
    by_cases hc : c = chatName
    · subst hc
      rw [hroom] at hchat
      cases hchat
      refine ⟨room.addMessage message, [message], Table.insert_self .., rfl, fun v hv g hg => ?_⟩
      refine List.singleton_sublist.mpr (List.mem_map.mpr ⟨g, ?_, rfl⟩)
      exact List.mem_filterMap.mpr ⟨v, hv, getFd_ok_iff.mp hg⟩
    · refine ⟨chat, [], ?_, (List.append_nil _).symm, fun v _ g _ => List.nil_sublist _⟩
      rw [Table.insert_of_ne hc, hchat]
  · obtain ⟨r, hrun⟩ := sendGroupMessage_refused (s := s) (c := chatName)
      (fun u chat hu hchat hmem => hmember ⟨u, chat, hu, hchat, hmem⟩) message
    exact .of_ok hrun (.of_chats (.one (P := fun _ _ => True) rfl trivial) rfl)

/-- Leaving takes a member out of the rooms. The histories stay, those of the user's messages
    included. -/
theorem exitCurrentSession_posts (s : ServerContext) :
    PostsAt ServerApplicationService.exitCurrentSession s := by
  cases hu : s.sessions.getUsername s.fd with
  | error e =>
    refine .get_bind ?_
    rw [hu]
    exact .pure _ (Answered.refl s).posts
  | ok u =>
    refine .of_ok (exitCurrentSession_run hu) ?_
    refine .of_histories (AllSent.refl (fun _ _ => True) s) fun c chat hchat => ?_
    refine ⟨_, ?_, leftChat_messages chat u⟩
    show (s.chats c).map _ = _
    rw [hchat]
    rfl

/-- Private messages are in no history. -/
theorem deliverCipherMessage_posts (msg : Message) (s : ServerContext) :
    PostsAt (ServerApplicationService.deliverCipherMessage s.fd msg) s := by
  refine .get_bind ?_
  split
  · exact (AnswersAt.send _ s).posts
  · split
    · exact (AnswersAt.send _ s).posts
    · split
      · exact (AnswersAt.send _ s).posts
      · refine Respects.bind (AnswersAt.construct _ _ _ _ s) (fun m s₁ _ => ?_)
          (fun _ h => h.posts) fun _ _ h h' => h.then_posts h'
        exact .modify (.of_chats (.one (P := fun _ _ => True) rfl trivial) rfl)

theorem forwardFile_posts (msg : Message) (s : ServerContext) : PostsAt (forwardFile msg) s := by
  cases hrecipient : s.sessions.getFd (msg.getMeta 0) with
  | error e => exact (forwardFile_absent hrecipient).posts
  | ok g =>
    exact .of_ok (forwardFile_run hrecipient)
      (.of_chats (.one (P := fun _ _ => True) rfl trivial) rfl)

/-- Every command. A post is made of a text that is constructed first. -/
theorem execute_posts (cmd : ServerCommand) (msg : Message) (s : ServerContext) :
    PostsAt (cmd.execute msg) s := by
  cases cmd with
  | exit => exact exitCurrentSession_posts s
  | login => exact login_posts _ _ _ _ s
  | room => exact createRoom_posts _ s
  | send =>
    exact Respects.bind (AnswersAt.construct _ _ _ _ s)
      (fun message s₁ _ => sendGroupMessage_posts _ message s₁) (fun _ h => h.posts)
      fun _ _ h h' => h.then_posts h'
  | join => exact joinRoom_posts _ s
  | getpub => exact (sendPubkey_answers _ s).posts
  | help => exact .pure _ (Answered.refl s).posts
  | sendfile => exact .get_bind (AnswersAt.sendText _ s).posts

theorem handler_posts {type : MessageType} {handle : Message → ServerM Unit}
    (h : ServerMessageDispatcher.handler type = some handle) (msg : Message) (s : ServerContext) :
    PostsAt (handle msg) s := by
  cases type <;> cases h
  · exact .pure _ (Answered.refl s).posts
  · unfold ServerCommandHandler.handleMessage ServerCommandBus.dispatch
    split
    · exact .pure _ (Answered.refl s).posts
    · exact execute_posts _ msg s
  · exact .get_bind (deliverCipherMessage_posts msg s)
  · exact forwardFile_posts msg s
  · exact forwardFile_posts msg s
  · exact forwardFile_posts msg s

/-! ## Runs -/

theorem message_posts (s : ServerContext) (now : UInt64) (fd : Fd) (msg : Message) :
    Posts s (s.step (.message now fd msg)) := by
  cases hhandler : ServerMessageDispatcher.handler msg.getType with
  | none =>
    rw [step_unhandled hhandler]
    exact .of_chats (P := fun _ _ => True) ⟨[], (List.append_nil _).symm, fun _ _ _ => trivial⟩ rfl
  | some handle =>
    rw [step_of_handler hhandler]
    obtain ⟨sent, hposts⟩ := (handler_posts hhandler msg { s with now := now, fd := fd }).state
    exact ⟨sent, hposts.outbox, hposts.rooms⟩

/-- **One event** keeps the histories, or adds to one what it sends to all its members. -/
theorem step_posts (s : ServerContext) (e : ServerEvent) : Posts s (s.step e) := by
  cases e with
  | message now fd msg => exact message_posts s now fd msg
  | disconnect now fd =>
    obtain ⟨msg, -, hstep⟩ := step_disconnect_eq s now fd
    rw [hstep]
    exact message_posts s now fd msg

/-- `u` is in the room `c`, on the connection `g`. -/
def ServerContext.InRoom (s : ServerContext) (c u : Name) (g : Fd) : Prop :=
  s.sessions.getFd u = .ok g ∧ ∃ chat, s.chats c = some chat ∧ u ∈ chat.getMembers

/-- **One order for everybody**: over any run, from any state, the history of a room grows by some
    list of messages, and whoever is in the room, on one connection, before each event of the run is
    sent all of them, in that order. The induction is on the events; what is posted and sent by the
    first comes before the rest. -/
theorem room_in_order (s : ServerContext) (c : Name) (chat : Chat) (hchat : s.chats c = some chat)
    (events : List ServerEvent) :
    ∃ chat' posted sent, (events.foldl ServerContext.step s).chats c = some chat' ∧
      chat'.messages = chat.messages ++ posted ∧
      (events.foldl ServerContext.step s).outbox = s.outbox ++ sent ∧
      ∀ u g, Along ServerContext.step (fun t _ => t.InRoom c u g) s events →
        (copiesTo g posted).Sublist sent := by
  induction events generalizing s chat with
  | nil =>
    refine ⟨chat, [], [], hchat, (List.append_nil _).symm, (List.append_nil _).symm, ?_⟩
    exact fun _ _ _ => List.nil_sublist _
  | cons e events ih =>
    obtain ⟨sent, hposts⟩ := step_posts s e
    obtain ⟨chat₁, posted, hchat₁, hmessages, hcopies⟩ := hposts.rooms c chat hchat
    obtain ⟨chat', posted', sent', hchat', hmessages', houtbox', hcopies'⟩ := ih _ chat₁ hchat₁
    refine ⟨chat', posted ++ posted', sent ++ sent', hchat', ?_, ?_, ?_⟩
    · rw [hmessages', hmessages, List.append_assoc]
    · rw [List.foldl_cons, houtbox', hposts.outbox, List.append_assoc]
    · rintro u g ⟨⟨hfd, room, hroom, hmember⟩, hrest⟩
      obtain rfl : room = chat := Option.some.inj (hroom.symm.trans hchat)
      rw [copiesTo, List.map_append]
      exact (hcopies u hmember g hfd).append (hcopies' u g hrest)

/-- Both in the room post to it. -/
def bothPost : List ServerEvent :=
  let post (text : String) : Message :=
    { header := { type := .command }, metadata := [[CommandType.send.toByte], bytes "den"],
      payload := bytes text }
  [.message 5 6 (post "hi"), .message 6 5 (post "hello")]

theorem both_in_order :
    ∃ chat' posted sent,
      (bothPost.foldl ServerContext.step (serverAfter twoInARoom)).chats (bytes "den")
        = some chat' ∧
      chat'.messages = posted ∧
      (bothPost.foldl ServerContext.step (serverAfter twoInARoom)).outbox
        = (serverAfter twoInARoom).outbox ++ sent ∧
      (copiesTo 5 posted).Sublist sent ∧ (copiesTo 6 posted).Sublist sent := by
  obtain ⟨chat', posted, sent, hchat', hmessages, houtbox, hcopies⟩ :=
    room_in_order (serverAfter twoInARoom) (bytes "den") _ rfl bothPost
  refine ⟨chat', posted, sent, hchat', hmessages, houtbox, hcopies (bytes "alice") 5 ?_,
    hcopies (bytes "bob") 6 ?_⟩
  · exact ⟨⟨rfl, _, rfl, by decide⟩, ⟨rfl, _, rfl, by decide⟩, trivial⟩
  · exact ⟨⟨rfl, _, rfl, by decide⟩, ⟨rfl, _, rfl, by decide⟩, trivial⟩

end Messenger
