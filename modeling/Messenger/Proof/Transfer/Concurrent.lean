import Messenger.Lib.Interleaving
import Messenger.Proof.Conversation.Counters
import Messenger.Proof.Transfer.Clients

/-!
# Two transfers at once

The streams of a recipient are kept under the recipient's own name and the name of the file.
The sender is not part of the key. So two transfers are apart exactly when the two keys, which are
the two paths, lead to different files: then neither touches the stream or the file of the
other, and any interleaving of their messages is as good as one after the other. With one name
there is one stream and one file for both. With two names that lead to the same file there are two
streams and still one file.

What a file message touches is said once for the three kinds (`TouchesOnly`). That closing
a stream writes to the file of that stream and to no other takes a word about the streams
that are open: each writes to the file that its key leads to (`Owns`).

The main theorem is about every interleaving of two lists of messages, and is proved with a rule
for interleavings: an invariant that holds at the start, that each message of one list moves on by
one stage, and that each message of the other list leaves as it is. The first is known from a
transfer that is alone. The second is the hard one, and the disk is where it could fail: a
`FileStart` empties a file, and a stream that is closed writes to one. Both concern the file that
the key leads to, so it must not be the file of the other transfer, nor that of a stream that was
left open before.

Conversely, if both keys lead to one file there are not two files at the end, whatever the order.
-/

set_option autoImplicit false

namespace Messenger

open Messenger.Lib

/-- A stream that is kept under `path` writes to the file that `path` leads to. It did so when it
    was opened; that it still does is because the way paths lead to files does not change. -/
def ClientContext.Owns (c : ClientContext) (path : Bytes) : Prop :=
  ∀ stream, c.pendingFiles path = some stream → stream.file = c.fileAt path

/-- Of the streams and files, at most those at `path` are different. The disk is the only part that
    needs an assumption: a stream is closed over the file it was opened for, and if that is not the
    file of its key, another file is written to. -/
structure TouchesOnly (path : Bytes) (c c' : ClientContext) : Prop where
  streams : ∀ q, q ≠ path → c'.pendingFiles q = c.pendingFiles q
  disk : c.Owns path → ∀ file, file ≠ c.fileAt path → c'.disk file = c.disk file
  owns : c.Owns path → c'.Owns path
  encryption : ∀ b, c.encryption.IsOf b → c'.encryption.IsOf b
  counters : c'.counters = c.counters
  resolves : c'.resolves = c.resolves
  writable : c'.writable = c.writable

section Touches

variable {ssl : OpenSSL} {c : ClientContext} {msg : Message} {path : Bytes}

theorem TouchesOnly.refl (path : Bytes) (c : ClientContext) : TouchesOnly path c c :=
  ⟨fun _ _ => rfl, fun _ _ _ => rfl, id, fun _ => id, rfl, rfl, rfl⟩

theorem TouchesOnly.fileAt {c' : ClientContext} (h : TouchesOnly path c c') (q : Bytes) :
    c'.fileAt q = c.fileAt q :=
  congrFun h.resolves (cString q)

theorem close_of_ne {stream : OutFile} {file : Bytes} (h : file ≠ stream.file)
    (disk : Table Bytes Bytes) : stream.close disk file = disk file :=
  Table.insert_of_ne h ..

/-- The disk after a `FileStart`: the file is empty, unless a stream was open over it. -/
def ClientContext.emptied (c : ClientContext) (path : Bytes) : Table Bytes Bytes :=
  match c.pendingFiles path with
  | none => c.disk.insert (c.fileAt path) []
  | some replaced => replaced.close (c.disk.insert (c.fileAt path) [])

/-- Either way no other file is touched, as the stream that is replaced is over the same one. -/
theorem emptied_of_ne (howns : c.Owns path) {file : Bytes} (hfile : file ≠ c.fileAt path) :
    c.emptied path file = c.disk file := by
  have hopened : c.disk.insert (c.fileAt path) [] file = c.disk file := Table.insert_of_ne hfile ..
  unfold ClientContext.emptied
  cases hstream : c.pendingFiles path with
  | none => exact hopened
  | some replaced => exact (close_of_ne (howns replaced hstream ▸ hfile) _).trans hopened

/-- What the handler leaves: all as it was, if the size is too short or the file cannot be created,
    or a new stream. -/
theorem fileStart_finalState (msg : Message) (c : ClientContext) :
    finalState (ClientFileStartHandler.handleIncoming msg) c = c ∨
      finalState (ClientFileStartHandler.handleIncoming msg) c = { c with
        disk := c.emptied (fileKey msg)
        pendingFiles :=
          c.pendingFiles.insert (fileKey msg) { file := c.fileAt (fileKey msg) } } := by
  unfold ClientFileStartHandler.handleIncoming
  cases readU64 (msg.getMeta 2) 0 with
  | error x => exact .inl rfl
  | ok size =>
    rw [finalState_bind_ok (show liftExcept (.ok size) c = .ok size c from rfl),
      finalState_get_bind]
    dsimp only
    split
    · exact .inl rfl
    · exact .inr rfl

theorem fileStart_touchesOnly (msg : Message) (c : ClientContext) :
    TouchesOnly (fileKey msg) c (finalState (ClientFileStartHandler.handleIncoming msg) c) := by
  rcases fileStart_finalState msg c with h | h
  · rw [h]
    exact .refl _ c
  · rw [h]
    refine ⟨fun q hq => Table.insert_of_ne hq .., fun howns file hfile => emptied_of_ne howns hfile,
      fun _ stream hstream => ?_, fun _ => id, rfl, rfl, rfl⟩
    obtain rfl := Option.some.inj ((Table.insert_self ..).symm.trans hstream)
    rfl

/-- What a chunk changes before it is written: the counters are as before, and the own keys. -/
structure Prepared (c c' : ClientContext) : Prop where
  counters : c'.counters = c.counters
  encryption : ∀ b, c.encryption.IsOf b → c'.encryption.IsOf b
  pendingFiles : c'.pendingFiles = c.pendingFiles
  disk : c'.disk = c.disk
  resolves : c'.resolves = c.resolves
  writable : c'.writable = c.writable

/-- Whatever becomes of a chunk, the stream has at most more in it. -/
theorem fileChunk_finalState (ssl : OpenSSL) {stream : OutFile}
    (hstream : c.pendingFiles (fileKey msg) = some stream) :
    ∃ c', Prepared c c' ∧
      (finalState (ClientFileChunkHandler.handleIncoming ssl msg) c = c' ∨
        ∃ payload, finalState (ClientFileChunkHandler.handleIncoming ssl msg) c = { c' with
          pendingFiles := c'.pendingFiles.insert (fileKey msg)
            { stream with written := stream.written ++ payload } }) := by
  refine ⟨c.withKeysOf ssl msg, ?_, ?_⟩
  · exact ⟨withKeysOf_counters .., fun b hb => cachePublicKey_isOf hb .., rfl, rfl, rfl, rfl⟩
  · cases hopen : c.encryption.openChunk ssl msg (c.counters (msg.getMeta 0)) with
    | error x => exact .inl (finalState_error (fileChunk_refused hstream hopen))
    | ok payload => exact .inr ⟨payload, finalState_ok (fileChunk_opened hstream hopen)⟩

/-- The keys of the sender are cached, which is not of interest here. No file is written to: the
    bytes go to the stream. -/
theorem fileChunk_touchesOnly (ssl : OpenSSL) (msg : Message) (c : ClientContext) :
    TouchesOnly (fileKey msg) c (finalState (ClientFileChunkHandler.handleIncoming ssl msg) c) := by
  cases hstream : c.pendingFiles (fileKey msg) with
  | none =>
    rw [finalState_ok (fileChunk_absent hstream)]
    exact .refl _ c
  | some stream =>
    obtain ⟨c', hc', h | ⟨payload, h⟩⟩ := fileChunk_finalState ssl hstream
    · rw [h]
      refine ⟨fun q _ => congrFun hc'.pendingFiles q, fun _ file _ => congrFun hc'.disk file,
        fun howns => ?_, hc'.encryption, hc'.counters, hc'.resolves, hc'.writable⟩
      unfold ClientContext.Owns ClientContext.fileAt
      rw [hc'.pendingFiles, hc'.resolves]
      exact howns
    · rw [h]
      refine ⟨fun q hq => ?_, fun _ file _ => congrFun hc'.disk file,
        fun howns stream' hstream' => ?_, hc'.encryption, hc'.counters, hc'.resolves, hc'.writable⟩
      · exact (Table.insert_of_ne hq ..).trans (congrFun hc'.pendingFiles q)
      · obtain rfl := Option.some.inj ((Table.insert_self ..).symm.trans hstream')
        exact (howns stream hstream).trans (congrFun hc'.resolves _).symm

theorem fileEnd_finalState {stream : OutFile}
    (hstream : c.pendingFiles (fileKey msg) = some stream) :
    finalState (ClientFileEndHandler.handleIncoming msg) c = { c with
      disk := stream.close c.disk
      pendingFiles := c.pendingFiles.erase (fileKey msg) } := by
  unfold ClientFileEndHandler.handleIncoming
  rw [finalState_get_bind]
  dsimp only
  rw [hstream]
  rfl

theorem fileEnd_absent (hstream : c.pendingFiles (fileKey msg) = none) :
    finalState (ClientFileEndHandler.handleIncoming msg) c = c := by
  unfold ClientFileEndHandler.handleIncoming
  rw [finalState_get_bind]
  dsimp only
  rw [hstream]
  rfl

/-- The stream is closed and forgotten. This is where `Owns` is needed. -/
theorem fileEnd_touchesOnly (msg : Message) (c : ClientContext) :
    TouchesOnly (fileKey msg) c (finalState (ClientFileEndHandler.handleIncoming msg) c) := by
  cases hstream : c.pendingFiles (fileKey msg) with
  | none =>
    rw [fileEnd_absent hstream]
    exact .refl _ c
  | some stream =>
    rw [fileEnd_finalState hstream]
    refine ⟨fun q hq => Table.erase_of_ne hq _, fun howns file hfile => ?_,
      fun _ stream' hstream' => ?_, fun _ => id, rfl, rfl, rfl⟩
    · exact close_of_ne (howns stream hstream ▸ hfile) _
    · have hnone : c.pendingFiles.erase (fileKey msg) (fileKey msg) = none := Table.erase_self ..
      exact absurd (hnone.symm.trans hstream') (by simp)

end Touches

/-! ## The messages of one file -/

/-- A file that is sent in one chunk, which is `ciphertext` on the wire. Files of more chunks do not
    arrive anyway. -/
structure OneChunkFile where
  sender : Account
  filename : Bytes
  content : Bytes
  ciphertext : Bytes
  size : UInt64

/-- The messages of `f`, one of each kind. -/
structure OneChunkFile.SentAs (ssl : OpenSSL) (b : Account) (f : OneChunkFile)
    (start chunk stop : Timed) : Prop where
  start : Carries start.2 (fileStart ssl f.sender b f.filename f.size)
  chunk : Carries chunk.2 (fileChunk ssl f.sender b f.filename f.ciphertext)
  stop : Carries stop.2 (fileEnd b f.filename)

/-- What a recipient `b` is like who can take `f`. Its chunk can be decrypted, the file can be
    created, and no other transfer is going on under the same key. -/
structure ClientContext.CanTake (ssl : OpenSSL) (b : Account) (c : ClientContext)
    (f : OneChunkFile) : Prop where
  encryption : c.encryption.IsOf b
  opens : f.sender.SealedFor ssl b (c.counters b.name) f.content f.ciphertext
  writable : c.writable (c.fileAt (filePath b f.filename)) = true
  idle : c.pendingFiles (filePath b f.filename) = none

section Messages

variable {ssl : OpenSSL} {b : Account} {f : OneChunkFile} {start chunk stop : Timed}

theorem TouchesOnly.of_now {path : Bytes} {c c' : ClientContext} {now : UInt64}
    (h : TouchesOnly path { c with now := now } c') : TouchesOnly path c c' :=
  ⟨h.streams, h.disk, h.owns, h.encryption, h.counters, h.resolves, h.writable⟩

/-- A message touches what its handler touches at the key that it names; the same for the three
    kinds. -/
theorem touchesOnly_of_carries {m : Timed} {type : MessageType} {metadata : List Bytes}
    {payload filename : Bytes} {handle : Message → ClientM Unit}
    (hm : Carries m.2 (.plain type (b.name :: filename :: metadata) payload))
    (hhandler : ClientMessageDispatcher.handler ssl type = some handle)
    (htouch : ∀ msg c, TouchesOnly (fileKey msg) c (finalState (handle msg) c))
    (c : ClientContext) :
    TouchesOnly (filePath b filename) c (c.step ssl (.received m.1 m.2)) := by
  obtain ⟨msg, hmsg, hcontent⟩ := hm
  obtain ⟨htype, hmeta, -⟩ := Message.of_content hcontent
  have hkey : fileKey msg = filePath b filename := fileKey_eq (hmeta 0) (hmeta 1)
  rw [step_received hmsg (by rw [htype]; exact hhandler), ← hkey]
  exact (htouch msg _).of_now

/-- **A transfer touches its own file and no other.** -/
theorem OneChunkFile.SentAs.touchesOnly (h : f.SentAs ssl b start chunk stop) {m : Timed}
    (hm : m ∈ [start, chunk, stop]) (c : ClientContext) :
    TouchesOnly (filePath b f.filename) c (c.step ssl (.received m.1 m.2)) := by
  simp only [List.mem_cons, List.not_mem_nil, or_false] at hm
  rcases hm with rfl | rfl | rfl
  · exact touchesOnly_of_carries h.start rfl fileStart_touchesOnly c
  · exact touchesOnly_of_carries h.chunk rfl (fileChunk_touchesOnly ssl) c
  · exact touchesOnly_of_carries h.stop rfl fileEnd_touchesOnly c

/-- How far a file has come when the messages `rest` of its transfer are still to be handled. Said
    by what is left and not by what is done, since this is what an interleaving hands out. -/
def Stage (b : Account) (f : OneChunkFile) (file : Bytes) (counters : Bytes → UInt64)
    (c : ClientContext) : List Timed → Prop
  | [_, _, _] => c.pendingFiles (filePath b f.filename) = none
  | [_, _] => Receiving b f.filename file counters [] [] c
  | [_] => Receiving b f.filename file counters [] f.content c
  | [] => c.disk file = some f.content
  | _ => False

/-- In the middle of two transfers: one of them, to `file`, has come as far as `Stage` says, and the
    stream of the other, at `other`, is where it should be and over another file. -/
structure Underway (b : Account) (f : OneChunkFile) (file : Bytes) (counters : Bytes → UInt64)
    (other : Bytes) (rest : List Timed) (c : ClientContext) : Prop where
  stage : Stage b f file counters c rest
  encryption : c.encryption.IsOf b
  counters : c.counters = counters
  opens : c.fileAt (filePath b f.filename) = file
  writable : c.writable file = true
  apart : file ≠ c.fileAt other
  owns : c.Owns other

variable {file : Bytes} {counters : Bytes → UInt64} {other : Bytes} {c c' : ClientContext}
  {rest : List Timed}

theorem Underway.path_ne (h : Underway b f file counters other rest c) :
    filePath b f.filename ≠ other := by
  intro hsame
  exact h.apart (hsame ▸ h.opens.symm)

theorem Receiving.of_touchesOnly {residue written : Bytes}
    (h : Receiving b f.filename file counters residue written c)
    (hpath : filePath b f.filename ≠ other) (hfile : file ≠ c.fileAt other) (howns : c.Owns other)
    (htouch : TouchesOnly other c c') :
    Receiving b f.filename file counters residue written c' where
  encryption := htouch.encryption b h.encryption
  stream := (htouch.streams _ hpath).trans h.stream
  disk := (htouch.disk howns _ hfile).trans h.disk
  counters := htouch.counters.trans h.counters

/-- **A message of the other transfer** leaves this one where it is, at whatever stage it is. The
    disk is the delicate part: the other transfer may close its stream, and that must not be over
    this file, which is what `apart` and `owns` are for. -/
theorem Underway.unmoved (h : Underway b f file counters other rest c)
    (htouch : TouchesOnly other c c') : Underway b f file counters other rest c' where
  stage := by
    have hstage := h.stage
    unfold Stage at hstage ⊢
    split at hstage
    · exact (htouch.streams _ h.path_ne).trans hstage
    · exact hstage.of_touchesOnly h.path_ne h.apart h.owns htouch
    · exact hstage.of_touchesOnly h.path_ne h.apart h.owns htouch
    · exact (htouch.disk h.owns _ h.apart).trans hstage
    · exact hstage.elim
  encryption := htouch.encryption b h.encryption
  counters := htouch.counters.trans h.counters
  opens := (htouch.fileAt _).trans h.opens
  writable := (congrFun htouch.writable _).trans h.writable
  apart := fun hsame => h.apart (hsame.trans (htouch.fileAt other))
  owns := htouch.owns h.owns

/-- **A message of its own** takes it one stage further. Which message it is follows from how many
    are left. -/
theorem Stage.next (hssl : ssl.Correct) (hsent : f.SentAs ssl b start chunk stop)
    (hopens : f.sender.SealedFor ssl b (counters b.name) f.content f.ciphertext) {m : Timed}
    (hm : m :: rest <:+ [start, chunk, stop]) (h : Underway b f file counters other (m :: rest) c) :
    Stage b f file counters (c.step ssl (.received m.1 m.2)) rest := by
  have hstage := h.stage
  rw [List.suffix_cons_iff, List.suffix_cons_iff, List.suffix_cons_iff] at hm
  -- start, chunk or end, by what is left of the three
  rcases hm with hm | hm | hm | hm
  · obtain ⟨rfl, rfl⟩ := List.cons.inj hm
    have hwritable := h.writable
    rw [← h.opens] at hwritable
    obtain ⟨residue, hreceiving, hresidue⟩ := received_start hsent.start h.encryption hwritable m.1
    obtain rfl := hresidue hstage
    rw [h.counters, h.opens] at hreceiving
    exact hreceiving
  · obtain ⟨rfl, rfl⟩ := List.cons.inj hm
    have hfilled := received_chunk hssl hsent.chunk hopens hstage m.1
    rw [if_pos rfl, List.nil_append] at hfilled
    exact hfilled
  · obtain ⟨rfl, rfl⟩ := List.cons.inj hm
    have hclosed := (received_end ssl hsent.stop hstage m.1).1
    rw [List.drop_nil, List.append_nil] at hclosed
    exact hclosed
  · exact absurd hm (by simp)

/-- With the rest of the invariant: what is known of the other transfer is not touched by a message
    of this one. -/
theorem Underway.next (hssl : ssl.Correct) (hsent : f.SentAs ssl b start chunk stop)
    (hopens : f.sender.SealedFor ssl b (counters b.name) f.content f.ciphertext)
    {m : Timed} (hm : m :: rest <:+ [start, chunk, stop])
    (h : Underway b f file counters other (m :: rest) c) :
    Underway b f file counters other rest (c.step ssl (.received m.1 m.2)) := by
  have htouch := hsent.touchesOnly (hm.subset List.mem_cons_self) c
  refine ⟨Stage.next hssl hsent hopens hm h, htouch.encryption b h.encryption,
    htouch.counters.trans h.counters, (htouch.fileAt _).trans h.opens,
    (congrFun htouch.writable _).trans h.writable,
    fun hsame => h.apart (hsame.trans (htouch.fileAt other)), fun stream hstream => ?_⟩
  rw [htouch.streams other h.path_ne.symm] at hstream
  exact (h.owns stream hstream).trans (htouch.fileAt other).symm

end Messages

/-! ## Both at once -/

section Both

variable {ssl : OpenSSL} {b : Account} {f g : OneChunkFile} {c : ClientContext}
  {messages : List Timed} {startF chunkF stopF startG chunkG stopG : Timed}

/-- A file that the client has received: one of the messages has opened it, and `content` is what it
    holds when all of them have been handled. -/
structure ReceivedFile (ssl : OpenSSL) (c : ClientContext) (messages : List Timed)
    (file content : Bytes) : Prop where
  opened : ∃ m ∈ messages, ∃ msg, Serializer.deserialize m.2 = .ok msg ∧
    msg.getType = .fileStart ∧ c.fileAt (fileKey msg) = file
  saved : (c.receive ssl messages).disk file = some content

theorem receive_eq_foldl (ssl : OpenSSL) (c : ClientContext) (messages : List Timed) :
    c.receive ssl messages
      = messages.foldl (fun c m => c.step ssl (.received m.1 m.2)) c := by
  unfold ClientContext.receive ClientContext.run
  rw [List.foldl_map]

/-- One of two interleaved transfers is as good as alone. By the invariant rule of interleavings,
    with `next` for the messages of one list and `unmoved` for those of the other. -/
theorem interleaved_saved (hssl : ssl.Correct) (hf : f.SentAs ssl b startF chunkF stopF)
    (hg : g.SentAs ssl b startG chunkG stopG) (hc : c.CanTake ssl b f)
    (hidle : c.pendingFiles (filePath b g.filename) = none)
    (hapart : c.fileAt (filePath b f.filename) ≠ c.fileAt (filePath b g.filename))
    (horder : Interleaving [startF, chunkF, stopF] [startG, chunkG, stopG] messages) :
    (c.receive ssl messages).disk (c.fileAt (filePath b f.filename)) = some f.content := by
  have hstart : Underway b f (c.fileAt (filePath b f.filename)) c.counters (filePath b g.filename)
      [startF, chunkF, stopF] c := by
    refine ⟨hc.idle, hc.encryption, rfl, rfl, hc.writable, hapart, fun stream hstream => ?_⟩
    rw [hidle] at hstream
    cases hstream
  rw [receive_eq_foldl]
  refine (horder.invariant (P := Underway b f (c.fileAt (filePath b f.filename)) c.counters
    (filePath b g.filename)) ?_ ?_ c hstart).stage
  · intro m rest c' hm h
    exact h.next hssl hf hc.opens hm
  · intro m hm rest c' h
    exact h.unmoved (hg.touchesOnly hm c')

theorem OneChunkFile.SentAs.fileKey_eq (h : f.SentAs ssl b startF chunkF stopF) {m : Timed}
    (hm : m ∈ [startF, chunkF, stopF]) {msg : Message}
    (hmsg : Serializer.deserialize m.2 = .ok msg) : fileKey msg = filePath b f.filename := by
  have hkey {type : MessageType} {metadata : List Bytes} {payload : Bytes}
      (hcarries : Carries m.2 (.plain type (b.name :: f.filename :: metadata) payload)) :
      fileKey msg = filePath b f.filename := by
    obtain ⟨msg', hmsg', hcontent⟩ := hcarries
    obtain rfl := Except.ok.inj (hmsg.symm.trans hmsg')
    obtain ⟨-, hmeta, -⟩ := Message.of_content hcontent
    exact Messenger.fileKey_eq (hmeta 0) (hmeta 1)
  simp only [List.mem_cons, List.not_mem_nil, or_false] at hm
  rcases hm with rfl | rfl | rfl
  · exact hkey h.start
  · exact hkey h.chunk
  · exact hkey h.stop

/-- **Two names for one file** are one file. -/
theorem ReceivedFile.file_eq (hf : f.SentAs ssl b startF chunkF stopF)
    (hg : g.SentAs ssl b startG chunkG stopG)
    (hsame : c.fileAt (filePath b f.filename) = c.fileAt (filePath b g.filename))
    (horder : Interleaving [startF, chunkF, stopF] [startG, chunkG, stopG] messages)
    {file content : Bytes} (h : ReceivedFile ssl c messages file content) :
    file = c.fileAt (filePath b f.filename) := by
  obtain ⟨m, hm, msg, hmsg, -, rfl⟩ := h.opened
  rcases (horder.mem_iff m).mp hm with hm | hm
  · rw [hf.fileKey_eq hm hmsg]
  · rw [hsame, hg.fileKey_eq hm hmsg]

theorem OneChunkFile.SentAs.opened (h : f.SentAs ssl b startF chunkF stopF)
    (hm : startF ∈ messages) :
    ∃ m ∈ messages, ∃ msg, Serializer.deserialize m.2 = .ok msg ∧ msg.getType = .fileStart ∧
      c.fileAt (fileKey msg) = c.fileAt (filePath b f.filename) := by
  obtain ⟨msg, hmsg, hcontent⟩ := h.start
  obtain ⟨htype, -, -⟩ := Message.of_content hcontent
  exact ⟨startF, hm, msg, hmsg, htype, by rw [h.fileKey_eq List.mem_cons_self hmsg]⟩

/-- **Two transfers to one recipient.** In whatever order their messages arrive, each in the
    order in which it was sent, two files are received with the two contents exactly if
    the two paths, the recipient's name before the name of the file, lead to different files. -/
theorem transfers_kept_apart_iff (hssl : ssl.Correct) (hf : f.SentAs ssl b startF chunkF stopF)
    (hg : g.SentAs ssl b startG chunkG stopG) (hcf : c.CanTake ssl b f) (hcg : c.CanTake ssl b g)
    (horder : Interleaving [startF, chunkF, stopF] [startG, chunkG, stopG] messages) :
    (∃ p q, p ≠ q ∧ ReceivedFile ssl c messages p f.content ∧
        ReceivedFile ssl c messages q g.content) ↔
      c.fileAt (filePath b f.filename) ≠ c.fileAt (filePath b g.filename) := by
  have hmem := horder.mem_iff
  constructor
  · rintro ⟨p, q, hne, hp, hq⟩ hsame
    have hfile := hp.file_eq hf hg hsame horder
    exact hne (hfile.trans (hq.file_eq hf hg hsame horder).symm)
  · intro hapart
    refine ⟨_, _, hapart, ⟨?_, ?_⟩, ⟨?_, ?_⟩⟩
    · exact hf.opened ((hmem startF).mpr (.inl List.mem_cons_self))
    · exact interleaved_saved hssl hf hg hcf hcg.idle hapart horder
    · exact hg.opened ((hmem startG).mpr (.inr List.mem_cons_self))
    · exact interleaved_saved hssl hg hf hcg hcf.idle hapart.symm horder.symm

/-- A zero byte ends a path, so what is after it tells no files apart. -/
example (c : ClientContext) : c.fileAt (bytes "bob a\x00x") = c.fileAt (bytes "bob a\x00y") := rfl

end Both

/-! ## Alice and Carol write to Bob -/

def carol : Account := { name := bytes "carol", dhKey := [5], identityKey := [6] }

/-- A client of `a` that has the keys of Bob and a file. -/
def withFile (a : Account) (filename content : Bytes) : ClientContext where
  encryption := { (twoOnline.client .alice).encryption with
    dhKey := a.dhKey
    identityKey := a.identityKey }
  myUsername := a.name
  disk := Table.empty.insert (cString filename) content

/-- What it puts out for the file. -/
def noteMessages (a : Account) (filename content : Bytes) : List Bytes :=
  (finalState (SendFileCommand.executeOnClient clearSSL (twoUsers .bob).name filename)
    (withFile a filename content)).outgoing

theorem noteMessages_sentAs (a : Account) (filename content : Bytes)
    (hnames : NamesFit a (twoUsers .bob) filename)
    (hone : content.toChunks (16 * 1024) = [content]) :
    ∃ f : OneChunkFile, ∃ start chunk stop, noteMessages a filename content = [start, chunk, stop] ∧
      f.filename = filename ∧ f.content = content ∧
      f.SentAs clearSSL (twoUsers .bob) (0, start) (0, chunk) (0, stop) ∧
      (twoOnline.client .bob).CanTake clearSSL (twoUsers .bob) f := by
  have hknows : (withFile a filename content).Knows clearSSL a (twoUsers .bob) :=
    ⟨⟨rfl, rfl, fun _ => ⟨_, rfl⟩⟩, ⟨rfl, rfl⟩, rfl, rfl⟩
  obtain ⟨c', raws, ciphertexts, hrun, -, hout, hcarries, hsealed⟩ := sendFile_run clearSSL_correct
    hnames hknows (Table.insert_self Table.empty (cString filename) content)
  have hraws : noteMessages a filename content = raws := by
    unfold noteMessages
    rw [finalState_ok hrun, hout]
    rfl
  rw [hone] at hsealed
  cases hsealed with
  | @cons n chunk ciphertext chunks ciphertexts hsealed hrest =>
    cases hrest
    rcases hcarries with _ | ⟨hstart, _ | ⟨hchunk, _ | ⟨hstop, _ | _⟩⟩⟩
    refine ⟨⟨a, filename, content, ciphertext, _⟩, _, _, _, hraws, rfl, rfl,
      ⟨hstart, hchunk, hstop⟩, ⟨rfl, rfl, fun _ => ⟨_, rfl⟩⟩, hsealed, rfl, rfl⟩

/-- Alice's messages and Carol's by turns. -/
def byTurns : List Bytes → List Bytes → List Timed
  | x :: xs, y :: ys => (0, x) :: (0, y) :: byTurns xs ys
  | _, _ => []

theorem byTurns_interleaving (xs ys : List Bytes) (h : xs.length = ys.length) :
    Interleaving (xs.map fun x => (0, x)) (ys.map fun y => (0, y)) (byTurns xs ys) := by
  induction xs generalizing ys with
  | nil =>
    obtain rfl := List.length_eq_zero_iff.mp h.symm
    exact .nil
  | cons x xs ih =>
    cases ys with
    | nil => cases h
    | cons y ys => exact .left (.right (ih ys (Nat.succ.inj h)))

/-- Alice sends her note as `a.txt`, Carol hers under the name given. -/
def bothNotes (filename : Bytes) : List Timed :=
  byTurns (noteMessages (twoUsers .alice) (bytes "a.txt") (bytes "hi"))
    (noteMessages carol filename (bytes "yo"))

/-- Two files, with different names. -/
theorem two_names_received :
    ∃ p q, p ≠ q ∧
      ReceivedFile clearSSL (twoOnline.client .bob) (bothNotes (bytes "b.txt")) p (bytes "hi") ∧
      ReceivedFile clearSSL (twoOnline.client .bob) (bothNotes (bytes "b.txt")) q (bytes "yo") := by
  obtain ⟨f, startF, chunkF, stopF, hmessagesF, hnameF, hcontentF, hf, hcf⟩ :=
    noteMessages_sentAs (twoUsers .alice) (bytes "a.txt") (bytes "hi")
      ⟨by decide, by decide, by decide⟩ (by decide)
  obtain ⟨g, startG, chunkG, stopG, hmessagesG, hnameG, hcontentG, hg, hcg⟩ :=
    noteMessages_sentAs carol (bytes "b.txt") (bytes "yo")
      ⟨by decide, by decide, by decide⟩ (by decide)
  unfold bothNotes
  rw [hmessagesF, hmessagesG, ← hcontentF, ← hcontentG]
  refine (transfers_kept_apart_iff clearSSL_correct hf hg hcf hcg
    (byTurns_interleaving [startF, chunkF, stopF] [startG, chunkG, stopG] rfl)).mpr ?_
  rw [hnameF, hnameG]
  decide

/-- The same two files with one name. Carol's `FileStart` closes Alice's stream, which is still
    empty, and both chunks go to Carol's. Bob has one file with both in it. -/
theorem one_name_mixed :
    Interleaving
        ((noteMessages (twoUsers .alice) (bytes "a.txt") (bytes "hi")).map fun raw => (0, raw))
        ((noteMessages carol (bytes "a.txt") (bytes "yo")).map fun raw => (0, raw))
        (bothNotes (bytes "a.txt")) ∧
      ((twoOnline.client .bob).receive clearSSL (bothNotes (bytes "a.txt"))).disk
        (bytes "bob a.txt") = some (bytes "hiyo") ∧
      ¬∃ p q, p ≠ q ∧
        ReceivedFile clearSSL (twoOnline.client .bob) (bothNotes (bytes "a.txt")) p (bytes "hi") ∧
        ReceivedFile clearSSL (twoOnline.client .bob) (bothNotes (bytes "a.txt")) q
          (bytes "yo") := by
  refine ⟨byTurns_interleaving _ _ (by decide +kernel), by decide +kernel, ?_⟩
  obtain ⟨f, startF, chunkF, stopF, hmessagesF, hnameF, -, hf, -⟩ :=
    noteMessages_sentAs (twoUsers .alice) (bytes "a.txt") (bytes "hi")
      ⟨by decide, by decide, by decide⟩ (by decide)
  obtain ⟨g, startG, chunkG, stopG, hmessagesG, hnameG, -, hg, -⟩ :=
    noteMessages_sentAs carol (bytes "a.txt") (bytes "yo")
      ⟨by decide, by decide, by decide⟩ (by decide)
  unfold bothNotes
  rw [hmessagesF, hmessagesG]
  have horder := byTurns_interleaving [startF, chunkF, stopF] [startG, chunkG, stopG] rfl
  have hsame : (twoOnline.client .bob).fileAt (filePath (twoUsers .bob) f.filename)
      = (twoOnline.client .bob).fileAt (filePath (twoUsers .bob) g.filename) := by
    rw [hnameF, hnameG]
  rintro ⟨p, q, hne, hp, hq⟩
  exact hne ((hp.file_eq hf hg hsame horder).trans (hq.file_eq hf hg hsame horder).symm)

end Messenger
