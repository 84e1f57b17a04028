import Messenger.Proof.Conversation.Simulation

/-!
# When private messages arrive

A client has one counter for each other user. It numbers what the client sends to that user
and is also what it expects of the next message from there. So two clients stay in step
while they do not speak at once, and every message is shown as it was sent
(`politeRun_allShown`). When both send before either has received, both counters have
moved on, and neither message is accepted (`crossing_messages_lost`).

Being in step is an invariant of the exchange alone: what is in flight is numbered from the counter
that the other side expects. Sending keeps it if nothing is in flight the other way, which is what
a polite run asks for; receiving keeps it always. The rest of the file carries this over to the
clients, by the simulation, and says it in terms of what is shown on the two screens.
-/

set_option autoImplicit false

namespace Messenger

open Messenger.Lib

variable {ssl : OpenSSL} {acct : Party → Account} {fd : Party → Fd} {s : Conversation} {e : Talk}
  {p : Party}

/-! ## What is on its way -/

theorem filter_length {R : Bytes → Option (UInt64 × Bytes) → Prop}
    (hR : ∀ {raw item}, R raw item →
      item.isSome = decide (messageType raw = some .cipherMessage))
    {raws : List Bytes} {items : List (Option (UInt64 × Bytes))} (h : List.Forall₂ R raws items) :
    (raws.filter fun raw => messageType raw = some .cipherMessage).length
      = items.reduceOption.length := by
  induction h with
  | nil => rfl
  | @cons raw item raws items hitem _ ih =>
    have hsome := hR hitem
    cases item with
    | none =>
      rw [List.filter_cons_of_neg (by simpa using hsome), List.reduceOption_cons_of_none]
      exact ih
    | some message =>
      rw [List.filter_cons_of_pos (by simpa using hsome), List.reduceOption_cons_of_some,
        List.length_cons, List.length_cons, ih]

theorem onTheWay_length (hs : Realises ssl acct fd s e) (p : Party) :
    (s.onTheWay p).length = (e.flight p.other).length := by
  obtain ⟨xs, ys, hxs, hys, hflight⟩ := hs.conveys p.other
  rw [Party.other_other] at hys
  unfold Conversation.onTheWay
  rw [List.filter_append, List.length_append, hflight, List.length_append,
    filter_length FromServer.isSome hys, filter_length ToServer.isSome hxs]

/-! ## Staying in step -/

/-- **A polite action keeps the two in step.** A `/pmess` and a turn of the server are nothing in
    the exchange, and receiving always keeps the two in step. What is left is the delivery of a key
    response, which sends. -/
theorem inStep_step (h : Peers ssl acct) (hs : Realises ssl acct fd s e)
    (he : e.InStep nextCounter) (now : UInt64) {a : Action} (hpolite : s.Polite acct a)
    (hshort : a.Short) :
    ∃ e', Realises ssl acct fd (s.step ssl (fun p => (acct p).name) fd now a) e' ∧
      e'.InStep nextCounter := by
  cases a with
  | pmess p text => exact ⟨e, realises_pmess h hs now hshort, he⟩
  | serve p =>
    cases hqueue : s.toServer p with
    | nil =>
      rw [Conversation.step_serve_nil ssl _ fd hqueue]
      exact ⟨e, hs, he⟩
    | cons raw rest => exact ⟨e, realises_serve h hs now hqueue, he⟩
  | deliver p =>
    cases hqueue : s.fromServer p with
    | nil =>
      rw [Conversation.step_deliver_nil ssl _ fd hqueue]
      exact ⟨e, hs, he⟩
    | cons raw rest =>
      refine ⟨_, realises_deliver h hs now hqueue, ?_⟩
      split
      · -- the only action that sends, and the only use of politeness
        rename_i hreply
        apply he.sendAll
        intro htexts
        have hquiet := hpolite raw rest hqueue hreply htexts
        have hlength := onTheWay_length hs p
        rw [hquiet] at hlength
        exact List.eq_nil_of_length_eq_zero hlength.symm
      · exact he.receive p

/-- Nobody has said anything yet. -/
def silence : Talk where
  counter _ := 0
  flight _ := []
  sent _ := []
  shown _ := []

theorem silence_inStep : silence.InStep nextCounter where
  numbered := ⟨.alice, rfl, .nil 0⟩
  shown _ := rfl

theorem Conversation.Fresh.realises (hs : s.Fresh ssl acct fd) :
    Realises ssl acct fd s silence where
  server := hs.server
  client p := {
    encryption := (hs.client p).encryption
    username := (hs.client p).username
    connected := (hs.client p).connected
    pendingMessages := by rw [(hs.client p).pendingMessages]; rfl
    texts_short := by
      rw [(hs.client p).queues]
      intro text htext
      cases htext
    counter := by rw [(hs.client p).counters]; rfl
    ui := (hs.client p).ui }
  conveys p := by
    refine ⟨[], [], ?_, ?_, rfl⟩
    · rw [hs.toServer]
      exact .nil
    · rw [hs.fromServer]
      exact .nil
  sent := funext hs.sent

/-- Two clients in step keep the promise. The next message from the server is the first in flight,
    and being in step means that its number is the expected one. -/
theorem Realises.allShown (hs : Realises ssl acct fd s e) (he : e.InStep nextCounter) :
    s.AllShown acct where
  counter p raw rest m hqueue hm htype := by
    obtain ⟨item, flight, hitem, hflight, -, -⟩ := Conveys.deliver hs hqueue
    cases hitem with
    | reply hraw =>
      rw [(Message.of_content (hraw.content_eq hm)).1] at htype
      cases htype
    | message hraw hsealed =>
      obtain ⟨-, hmeta, hpayload⟩ := Message.of_content (hraw.content_eq hm)
      have hsender : m.getMeta 1 = (acct p.other).name := hmeta 1
      rw [hpayload, hsealed.counter, hsender, (hs.client p).counter, he.expected hflight]
  shown p := by
    refine ⟨e.shown p, (e.flight p.other).map Prod.snd, (hs.client p).ui, ?_, ?_⟩
    · rw [hs.sent]
      exact (he.shown p).symm
    · rw [List.length_map, onTheWay_length hs]

/-- **A run**, whatever the order of the actions. -/
theorem inStep_run (h : Peers ssl acct) {actions : List (UInt64 × Action)}
    (hs : Realises ssl acct fd s e) (he : e.InStep nextCounter)
    (hpolite : s.PoliteRun ssl acct fd actions) :
    ∃ e', Realises ssl acct fd (s.run ssl (fun p => (acct p).name) fd actions) e' ∧
      e'.InStep nextCounter := by
  -- The invariant of the run is that the system realises some exchange that is in step.
  induction actions generalizing s e with
  | nil => exact ⟨e, hs, he⟩
  | cons a actions ih =>
    obtain ⟨now, a⟩ := a
    obtain ⟨hfirst, hshort, hrest⟩ := hpolite
    obtain ⟨e', hs', he'⟩ := inStep_step h hs he now hfirst hshort
    exact ih hs' he' hrest

/-- **Clients that do not speak at once show every message as it was sent**, in every
    order of actions. -/
theorem politeRun_allShown (h : Peers ssl acct) (hs : s.Fresh ssl acct fd)
    {actions : List (UInt64 × Action)} (hpolite : s.PoliteRun ssl acct fd actions) :
    (s.run ssl (fun p => (acct p).name) fd actions).AllShown acct := by
  obtain ⟨e, hrealises, hinStep⟩ := inStep_run h hs.realises silence_inStep hpolite
  exact hrealises.allShown hinStep

/-! ## Two runs -/

/-- Two users, with keys of one byte. -/
def twoUsers : Party → Account
  | .alice => { name := bytes "alice", dhKey := [1], identityKey := [2] }
  | .bob => { name := bytes "bob", dhKey := [3], identityKey := [4] }

def twoFds : Party → Fd
  | .alice => 5
  | .bob => 6

theorem twoUsers_peers : Peers clearSSL twoUsers where
  correct := clearSSL_correct
  names_ne := by decide
  names_fit p := by
    cases p with
    | alice => decide
    | bob => decide

/-- Both have logged in, and have fetched each other's keys. -/
def twoOnline : Conversation where
  client p := {
    encryption := {
      dhKey := (twoUsers p).dhKey
      identityKey := (twoUsers p).identityKey
      dhKeys := Table.empty.insert (twoUsers p.other).name ((twoUsers p.other).dhPublic clearSSL)
      identityKeys :=
        Table.empty.insert (twoUsers p.other).name ((twoUsers p.other).edPublic clearSSL)
      entropy := zeroEntropy }
    myUsername := (twoUsers p).name }
  server := serverAfter ([Party.alice, .bob].map fun p => .message 0 (twoFds p)
    { header := { type := .command }
      metadata := [[CommandType.login.toByte], (twoUsers p).name, (twoUsers p).dhPublic clearSSL,
        (twoUsers p).edPublic clearSSL, (twoUsers p).signature clearSSL] })

/-- The example of two users who have just logged in and have each other's keys, which the witnesses
    start from. -/
theorem twoOnline_fresh : twoOnline.Fresh clearSSL twoUsers twoFds where
  server := {
    username := fun p => by
      cases p with
      | alice => rfl
      | bob => rfl
    connection := fun p => by
      cases p with
      | alice => rfl
      | bob => rfl
    user := fun p => by
      cases p with
      | alice => rfl
      | bob => rfl }
  client p := {
    encryption := ⟨rfl, rfl, fun _ => ⟨_, rfl⟩⟩
    holds := ⟨Table.insert_self .., Table.insert_self ..⟩
    username := rfl
    connected := rfl
    counters := rfl
    pendingMessages := rfl
    queues := rfl
    ui := rfl }
  toServer _ := rfl
  fromServer _ := rfl
  sent _ := rfl

/-- Alice writes to Bob, who has nothing to say. -/
def oneWay : List (UInt64 × Action) :=
  [(1, .pmess .alice (bytes "hi")), (2, .serve .alice), (3, .deliver .alice), (4, .serve .alice),
    (5, .deliver .bob)]

theorem oneWay_polite : twoOnline.PoliteRun clearSSL twoUsers twoFds oneWay := by
  refine ⟨trivial, show (bytes "hi").length < 2 ^ 31 by decide, trivial, trivial, ?_, trivial,
    trivial, trivial, ?_, trivial, trivial⟩
  · intro raw rest _ _ _
    decide +kernel
  · intro raw rest _ _ hqueue
    exact absurd (by decide +kernel) hqueue

theorem oneWay_allShown :
    (twoOnline.run clearSSL (fun p => (twoUsers p).name) twoFds oneWay).AllShown twoUsers :=
  politeRun_allShown twoUsers_peers twoOnline_fresh oneWay_polite

/-- Both have sent a message before either receives one. -/
def crossing : List (UInt64 × Action) :=
  [(1, .pmess .alice (bytes "hi")), (2, .pmess .bob (bytes "yo")), (3, .serve .alice),
    (4, .serve .bob), (5, .deliver .alice), (6, .deliver .bob), (7, .serve .alice),
    (8, .serve .bob), (9, .deliver .alice), (10, .deliver .bob)]

/-- **Messages that cross are lost.** -/
theorem crossing_messages_lost :
    Peers clearSSL twoUsers ∧ twoOnline.Fresh clearSSL twoUsers twoFds ∧
      ¬(twoOnline.run clearSSL (fun p => (twoUsers p).name) twoFds crossing).AllShown twoUsers := by
  refine ⟨twoUsers_peers, twoOnline_fresh, ?_⟩
  intro h
  obtain ⟨delivered, waiting, hui, hsent, hwaiting⟩ := h.shown .alice
  -- Bob has sent a message, none is on its way to Alice, and she has been shown none
  have hbob : (twoOnline.run clearSSL (fun p => (twoUsers p).name) twoFds crossing).sent .bob
      = [bytes "yo"] := by decide +kernel
  have hquiet : (twoOnline.run clearSSL (fun p => (twoUsers p).name) twoFds crossing).onTheWay
      .alice
      = [] := by decide +kernel
  have hnothing : ((twoOnline.run clearSSL (fun p => (twoUsers p).name) twoFds crossing).client
      .alice).ui = [] := by decide +kernel
  rw [hnothing, eq_comm, List.map_eq_nil_iff] at hui
  rw [hquiet, List.length_nil, List.length_eq_zero_iff] at hwaiting
  subst hui hwaiting
  rw [show Party.alice.other = .bob from rfl, hbob] at hsent
  cases hsent

end Messenger
