import Messenger.Model.Client

/-!
# The two threads of a client

Commands are typed on one thread and messages from the server are handled on another. A
`/pmess` does two things with no lock around them: it asks for the key of the recipient and
it queues the text. A key response sends what is queued, in one go. So a response can be
handled between the two.

`requests` is a record of the keys that have been asked for and whose response has not been
handled. Nothing in the program reads it.
-/

set_option autoImplicit false

namespace Messenger

open Messenger.Lib

/-- The context that both threads use, and where the thread for commands is. -/
structure Threads where
  client : ClientContext
  -- The recipient and the text of a `/pmess` that has yet to queue the text.
  halfDone : Option (Bytes × Bytes) := none
  requests : List Bytes := []

/-- What one of the two threads does next. The handling of a response is one action: it is the
    halves of `/pmess` that matter here. -/
inductive ThreadAction
  -- A `/pmess` asks for the key.
  | ask (now : UInt64) (recipient payload : Bytes)
  -- The same `/pmess` queues the text.
  | queue
  -- The other thread handles `raw`, the response to a request for a key.
  | respond (now : UInt64) (recipient raw : Bytes)
  deriving DecidableEq, Repr

namespace Threads

variable (ssl : OpenSSL)

/-- The first half of `PrivateMessageCommand::executeOnClient`. There is one thread for
    commands, which has finished the last one. Without a connection nothing is sent. -/
def ask (s : Threads) (now : UInt64) (recipient payload : Bytes) : Threads :=
  if s.halfDone.isSome then s
  else if recipient.isEmpty || payload.isEmpty then
    { s with client := { s.client with now := now } }
  else
    match GetPubkeyCommand.executeOnClient recipient { s.client with now := now } with
    | .error _ c => { s with client := c }
    | .ok _ c => {
        client := c
        halfDone := some (recipient, payload)
        requests := if c.connected then s.requests ++ [recipient] else s.requests }

/-- The second half. The text goes into the queue of the recipient, where only a response to come
    will find it. -/
def queue (s : Threads) : Threads :=
  match s.halfDone with
  | none => s
  | some (recipient, payload) => { s with
      client := { s.client with mq := s.client.mq.push recipient payload }
      halfDone := none }

/-- The other thread handles a response. It answers one request, whichever text that was made
    for. -/
def respond (s : Threads) (now : UInt64) (recipient raw : Bytes) : Threads :=
  if s.requests.contains recipient then { s with
    client := finalState (MessagingClient.onTcpDataReceived ssl raw) { s.client with now := now }
    requests := s.requests.erase recipient }
  else s

def step (s : Threads) : ThreadAction → Threads
  | .ask now recipient payload => s.ask now recipient payload
  | .queue => s.queue
  | .respond now recipient raw => s.respond ssl now recipient raw

def run (s : Threads) (actions : List ThreadAction) : Threads := actions.foldl (step ssl) s

end Threads

end Messenger
