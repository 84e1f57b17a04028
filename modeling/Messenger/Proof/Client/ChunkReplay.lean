import Messenger.Proof.Client.Writes

/-!
# When a chunk that comes again is written again

A chunk brings the keys of its sender with it, so whether it opens depends on nothing of the
context but the own key, which never changes, and one counter. The handler takes the counter of
the recipient, that is, the one that the client keeps under its own name, and does not advance
it. So a chunk that was written once is written at every later delivery that finds a file under
the same key and that counter where it was (`chunkWritten_again`).
-/

set_option autoImplicit false

namespace Messenger

open Messenger.Lib

section

variable (ssl : OpenSSL)

/-- What the handler adds to the file that a chunk is for. Nothing if no such file is being
    received, or if the handler throws before it comes to the write. -/
def ClientContext.chunkWritten (c : ClientContext) (msg : Message) : Option Bytes :=
  match c.pendingFiles (fileKey msg), ClientFileChunkHandler.handleIncoming ssl msg c with
  | some file, .ok _ c' =>
    (c'.pendingFiles (fileKey msg)).map fun file' => file'.written.drop file.written.length
  | _, _ => none

/-- The chunk that an event brings, with what is written of it. -/
def ClientContext.writesChunk (c : ClientContext) (e : ClientEvent) : Option (Message × Bytes) :=
  match e.message with
  | none => none
  | some (now, msg) =>
    if msg.getType = .fileChunk then
      (ClientContext.chunkWritten ssl { c with now := now } msg).map fun plaintext =>
        (msg, plaintext)
    else none

/-- In the run of `events` from `start`, `e` brings a chunk at `later` that had come before, at
    `first`, and `plaintext` was written then. Anything may happen between the two. -/
structure ClientContext.Redelivery (start : ClientContext) (events : List ClientEvent)
    (msg : Message) (plaintext : Bytes) (first later : ClientContext) (e : ClientEvent) : Prop where
  again : ∃ now, e.message = some (now, msg)
  before : ∃ earlier e₀ between rest, events = earlier ++ e₀ :: (between ++ e :: rest) ∧
    first = start.run ssl earlier ∧ later = start.run ssl (earlier ++ e₀ :: between) ∧
    first.writesChunk ssl e₀ = some (msg, plaintext)

/-- No chunk that has been written is written again when it comes again. -/
def ClientContext.WritesOnce (start : ClientContext) (events : List ClientEvent) : Prop :=
  ∀ msg plaintext first later e, start.Redelivery ssl events msg plaintext first later e →
    later.writesChunk ssl e ≠ some (msg, plaintext)

end

variable {ssl : OpenSSL} {c c' : ClientContext} {msg : Message} {plaintext : Bytes}

/-! ## One chunk -/

/-- Decryption looks at the own key and at the two keys of the sender. -/
theorem decryptFor_congr {e e' : EncryptionService} {sender : Bytes} (hown : e'.dhKey = e.dhKey)
    (hdh : e'.dhKeys sender = e.dhKeys sender)
    (hidentity : e'.identityKeys sender = e.identityKeys sender)
    (username ciphertext signature : Bytes) (counter : UInt64) :
    e'.decryptFor ssl sender username ciphertext signature counter
      = e.decryptFor ssl sender username ciphertext signature counter := by
  unfold EncryptionService.decryptFor
  rw [hown, hdh, hidentity]

/-- With keys that are accepted, the chunk is opened with the keys that it brings, whatever was
    there. -/
theorem openChunk_accepted (hdh : ssl.dhAccepts (msg.getMeta 3) = true)
    (hed : ssl.edAccepts (msg.getMeta 4) = true) (e : EncryptionService) (counter : UInt64) :
    e.openChunk ssl msg counter = EncryptionService.decryptFor ssl { e with
      dhKeys := e.dhKeys.insert (msg.getMeta 2) (msg.getMeta 3)
      identityKeys := e.identityKeys.insert (msg.getMeta 2) (msg.getMeta 4) }
      (msg.getMeta 2) (msg.getMeta 0) msg.getPayload (msg.getMeta 5) counter := by
  unfold EncryptionService.openChunk EncryptionService.cachePublicKey
  rw [hdh, hed]
  rfl

/-- The own key and the counter decide. The keys of others that the service holds are overwritten by
    those of the chunk before they could matter. -/
theorem openChunk_congr {e e' : EncryptionService} (hown : e'.dhKey = e.dhKey) (msg : Message)
    (counter : UInt64) : e'.openChunk ssl msg counter = e.openChunk ssl msg counter := by
  cases hdh : ssl.dhAccepts (msg.getMeta 3) with
  | false => simp [EncryptionService.openChunk, EncryptionService.cachePublicKey, hdh]
  | true =>
    cases hed : ssl.edAccepts (msg.getMeta 4) with
    | false => simp [EncryptionService.openChunk, EncryptionService.cachePublicKey, hdh, hed]
    | true =>
      rw [openChunk_accepted hdh hed, openChunk_accepted hdh hed]
      apply decryptFor_congr
      · exact hown
      · exact (Table.insert_self ..).trans (Table.insert_self ..).symm
      · exact (Table.insert_self ..).trans (Table.insert_self ..).symm

/-- What opens has the counter in it, so it opens at one counter only. -/
theorem openChunk_counter {e : EncryptionService} {counter : UInt64}
    (h : e.openChunk ssl msg counter = .ok plaintext) :
    readU64 msg.getPayload 12 = .ok counter := by
  unfold EncryptionService.openChunk at h
  cases hcache : e.cachePublicKey ssl (msg.getMeta 2) (msg.getMeta 3) (msg.getMeta 4) with
  | mk result e₁ =>
    rw [hcache] at h
    cases result with
    | error x => cases h
    | ok u => exact decryptFor_counter h

/-- **What is written of a chunk** is what it opens to at the counter of its recipient. -/
theorem chunkWritten_eq_some :
    c.chunkWritten ssl msg = some plaintext ↔ (c.pendingFiles (fileKey msg)).isSome ∧
      c.encryption.openChunk ssl msg (c.counters (msg.getMeta 0)) = .ok plaintext := by
  unfold ClientContext.chunkWritten
  cases hfile : c.pendingFiles (fileKey msg) with
  | none => simp
  | some file =>
    cases hopen : c.encryption.openChunk ssl msg (c.counters (msg.getMeta 0)) with
    | error x => simp [fileChunk_refused hfile hopen]
    | ok payload => simp [fileChunk_opened hfile hopen]

/-- **A chunk that was written is written again** wherever the own key is the same, exactly if its
    file is being received and the counter of its recipient is what it was. It opens at one counter
    only, so no other counter will do. -/
theorem chunkWritten_again (hown : c'.encryption.dhKey = c.encryption.dhKey)
    (h : c.chunkWritten ssl msg = some plaintext) :
    c'.chunkWritten ssl msg = some plaintext ↔ (c'.pendingFiles (fileKey msg)).isSome ∧
      c'.counters (msg.getMeta 0) = c.counters (msg.getMeta 0) := by
  obtain ⟨-, hopened⟩ := chunkWritten_eq_some.mp h
  rw [chunkWritten_eq_some, openChunk_congr hown]
  refine and_congr_right fun _ => ⟨fun hagain => ?_, fun hcounter => ?_⟩
  · have hread := openChunk_counter hagain
    rw [openChunk_counter hopened] at hread
    exact (Except.ok.inj hread).symm
  · rw [hcounter]
    exact hopened

/-! ## Runs -/

theorem writesChunk_eq_some {e : ClientEvent} :
    c.writesChunk ssl e = some (msg, plaintext) ↔ (∃ now, e.message = some (now, msg)) ∧
      msg.getType = .fileChunk ∧ c.chunkWritten ssl msg = some plaintext := by
  unfold ClientContext.writesChunk
  cases hmsg : e.message with
  | none => simp
  | some event =>
    obtain ⟨now, msg'⟩ := event
    have hnow : ClientContext.chunkWritten ssl { c with now := now } msg = some plaintext ↔
        c.chunkWritten ssl msg = some plaintext := by
      rw [chunkWritten_eq_some, chunkWritten_eq_some]
      rfl
    dsimp only
    constructor
    · intro h
      split at h
      · obtain ⟨plaintext', hwritten, heq⟩ := Option.map_eq_some_iff.mp h
        cases heq
        exact ⟨⟨now, rfl⟩, by assumption, hnow.mp hwritten⟩
      · cases h
    · rintro ⟨⟨now', heq⟩, htype, hwritten⟩
      cases heq
      rw [if_pos htype, hnow.mpr hwritten, Option.map_some]

/-- The own key is the same at both deliveries, since no event changes it. -/
theorem redelivery_dhKey {start first later : ClientContext} {events : List ClientEvent}
    {e : ClientEvent} (h : start.Redelivery ssl events msg plaintext first later e) :
    later.encryption.dhKey = first.encryption.dhKey := by
  obtain ⟨earlier, e₀, between, rest, -, rfl, rfl, -⟩ := h.before
  have hwrites : start.Writes ssl (start.run ssl (earlier ++ e₀ :: between)) := run_writes _ _
  have hwrites₀ : start.Writes ssl (start.run ssl earlier) := run_writes _ _
  rw [hwrites.dhKey, hwrites₀.dhKey]

/-- **No chunk is written twice in a run exactly if**, whenever one that has been written comes
    again, its file is not being received any more or the counter that the client has under the
    recipient's name has changed. -/
theorem chunks_written_once_iff (ssl : OpenSSL) (start : ClientContext)
    (events : List ClientEvent) :
    start.WritesOnce ssl events ↔
      ∀ msg plaintext first later e, start.Redelivery ssl events msg plaintext first later e →
        later.pendingFiles (fileKey msg) = none ∨
          later.counters (msg.getMeta 0) ≠ first.counters (msg.getMeta 0) := by
  unfold ClientContext.WritesOnce
  refine forall₅_congr fun msg plaintext first later e => forall_congr' fun h => ?_
  obtain ⟨earlier, e₀, between, rest, -, -, -, hfirst⟩ := h.before
  obtain ⟨-, htype, hwritten⟩ := writesChunk_eq_some.mp hfirst
  have hagain := chunkWritten_again (redelivery_dhKey h) hwritten
  rw [Ne, writesChunk_eq_some, and_iff_right h.again, and_iff_right htype, hagain, not_and_or,
    Option.not_isSome_iff_eq_none]

/-! Alice starts a file for Bob, and the same chunk comes twice. -/

def noteStart : Message where
  header := { type := .fileStart }
  metalen := 3
  metadata := [bytes "bob", bytes "a.txt", writeU64 [] 2]

def noteChunk : Message where
  header := { type := .fileChunk }
  metalen := 6
  metadata :=
    [bytes "bob", bytes "a.txt", bytes "alice", clearSSL.dhPublic [1], clearSSL.edPublic [2],
    clearSSL.edSign [2] []]
  payload := List.replicate 20 0 ++ (bytes "hi" ++ List.replicate 16 0)

/-- Both times it is written: the file has its content twice. -/
theorem chunk_written_twice :
    let bob : ClientContext :=
      { encryption := { dhKey := [3], identityKey := [4], entropy := fun _ => none } }
    let events : List ClientEvent := [.received 1 (Serializer.serialize noteStart),
      .received 2 (Serializer.serialize noteChunk), .received 3 (Serializer.serialize noteChunk)]
    ¬bob.WritesOnce clearSSL events ∧
      ((bob.run clearSSL events).pendingFiles (bytes "bob a.txt")).map OutFile.written
        = some (bytes "hihi") := by
  intro bob events
  let e : ClientEvent := .received 3 (Serializer.serialize noteChunk)
  let e₀ : ClientEvent := .received 2 (Serializer.serialize noteChunk)
  let first := bob.run clearSSL (events.take 1)
  let later := bob.run clearSSL (events.take 2)
  have hwritten : (first.writesChunk clearSSL e₀).map Prod.snd = some (bytes "hi") := by
    decide +kernel
  have hsame : later.writesChunk clearSSL e = first.writesChunk clearSSL e₀ := by decide +kernel
  refine ⟨fun honce => ?_, by decide +kernel⟩
  obtain ⟨⟨msg, plaintext⟩, hfirst, -⟩ := Option.map_eq_some_iff.mp hwritten
  have hagain : later.writesChunk clearSSL e = some (msg, plaintext) := hsame.trans hfirst
  refine honce msg plaintext first later e ⟨(writesChunk_eq_some.mp hagain).1, ?_⟩ hagain
  exact ⟨events.take 1, e₀, [], [], rfl, rfl, rfl, hfirst⟩

end Messenger
