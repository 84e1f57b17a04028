import Mathlib.Data.List.Forall2
import Messenger.Lib.Chunks
import Messenger.Proof.Client.Crypto
import Messenger.Proof.Client.Handling
import Messenger.Spec.Transfer

/-!
# The two ends of a file transfer

The sender makes a `FileStart`, one `FileChunk` for every 16 KiB and a `FileEnd`. It encrypts a
chunk at its counter for the recipient, which goes up by one each time. The recipient opens a
chunk at its counter for *itself*, which stays as it is: of all the chunks it writes those
that happen to have that number (`acceptedChunks`), and its counter for the sender does not
move.

The two ends are proved apart and meet in `SealedFrom`. The sender's loop produces chunks that are
sealed at consecutive counters, whatever they contain; the recipient's loop takes chunks that are
sealed so, whoever has sent them. Both are inductions on the chunks with the counter as a
parameter.

On the side of the recipient it matters what is on disk while a stream is open: the bytes are in
the stream and not in the file, and a stream that is destroyed writes them over whatever the file
has by then. `Receiving` keeps the two apart, with what is left on disk as `residue`; for a
transfer that is alone it is empty.
-/

set_option autoImplicit false

namespace Messenger

open Messenger.Lib

/-! ## What is sent -/

section

variable (ssl : OpenSSL) (a b : Account) (filename : Bytes)

/-- What a transfer begins with. The size is there, and the recipient does not use it for anything
    but to convert it. -/
def fileStart (size : UInt64) : Content :=
  .plain .fileStart [b.name, filename, writeU64 [] size, a.dhPublic ssl, a.edPublic ssl,
    a.signature ssl] []

/-- A chunk, with the name and the keys of the sender, so that the recipient can open it without
    having asked for them. -/
def fileChunk (ciphertext : Bytes) : Content :=
  .plain .fileChunk [b.name, filename, a.name, a.dhPublic ssl, a.edPublic ssl, a.signature ssl]
    ciphertext

def fileEnd : Content := .plain .fileEnd [b.name, filename] []

/-- All messages of a transfer, with the chunks encrypted. -/
def fileMessages (size : UInt64) (ciphertexts : List Bytes) : List Content :=
  fileStart ssl a b filename size ::
    (ciphertexts.map (fileChunk ssl a b filename) ++ [fileEnd b filename])

/-- The chunks are encrypted one after the other, from the counter `n` on. The numbers are words of
    64 bits, and go round. -/
inductive SealedFrom : UInt64 → List Bytes → List Bytes → Prop
  | nil (n : UInt64) : SealedFrom n [] []
  | cons {n : UInt64} {chunk ciphertext : Bytes} {chunks ciphertexts : List Bytes} :
      a.SealedFor ssl b n chunk ciphertext → SealedFrom (n + 1) chunks ciphertexts →
        SealedFrom n (chunk :: chunks) (ciphertext :: ciphertexts)

end

variable {ssl : OpenSSL} {a b : Account} {filename : Bytes} {c : ClientContext}

/-- The messages of a transfer fit the compact format, if the names fit an entry. -/
theorem fileStart_fits (hssl : ssl.Correct) (hnames : NamesFit a b filename) (size : UInt64) :
    (fileStart ssl a b filename size).FitsCompact := by
  have hdh := a.dhPublic_length hssl
  have hed := a.edPublic_length hssl
  have hsig := a.signature_length hssl
  exact Content.plain_fits (by decide) (by simp)
    (by simp [hnames.recipient, hnames.filename, hdh, hed, hsig, writeU64]) (by simp)

theorem fileChunk_fits (hssl : ssl.Correct) (hnames : NamesFit a b filename) {ciphertext : Bytes}
    (hlength : ciphertext.length < 2 ^ 31 + 36) :
    (fileChunk ssl a b filename ciphertext).FitsCompact := by
  have hdh := a.dhPublic_length hssl
  have hed := a.edPublic_length hssl
  have hsig := a.signature_length hssl
  exact Content.plain_fits (by decide) (by simp)
    (by simp [hnames.sender, hnames.recipient, hnames.filename, hdh, hed, hsig]) hlength

theorem fileEnd_fits (hnames : NamesFit a b filename) : (fileEnd b filename).FitsCompact :=
  Content.plain_fits (by decide) (by simp) (by simp [hnames.recipient, hnames.filename]) (by simp)

/-! ## The sender -/

/-- **One chunk** is encrypted at the counter for the recipient, which goes up. This happens before
    the message is sent, so a chunk that could not be sent would leave a gap; with names that fit it
    can be. -/
theorem sendChunk_run (hssl : ssl.Correct) (hnames : NamesFit a b filename)
    (hc : c.Knows ssl a b) {chunk : Bytes} (hchunk : chunk.length ≤ 16 * 1024) :
    ∃ c' raw ciphertext, SendFileCommand.sendChunk ssl b.name filename chunk c = .ok () c' ∧
      c'.Knows ssl a b ∧ c'.counters b.name = c.counters b.name + 1 ∧
      c'.outgoing = c.outgoing ++ [raw] ∧ Carries raw (fileChunk ssl a b filename ciphertext) ∧
      a.SealedFor ssl b (c.counters b.name) chunk ciphertext := by
  obtain ⟨table, hcounter, hcounters⟩ := counterFor_ok b.name c
  obtain ⟨ciphertext, encryption, hencrypt, hof, hholds, hsealed⟩ := encryptFor_ok
    (c := { c with messagesCounter := table }) hssl hc.encryption hc.holds chunk (c.counters b.name)
  have hlen := hsealed.length
  let advanced : ClientContext := { c with
    encryption := encryption
    messagesCounter := table.insert b.name (c.counters b.name + 1) }
  have hadvance : advanceCounter b.name { c with
      messagesCounter := table, encryption := encryption } = .ok () advanced :=
    advanceCounter_run (congrFun hcounters b.name)
  obtain ⟨raw, hsend, hcarries⟩ := sendMessage_run (c := advanced) hc.connected 6
    (fileChunk_fits hssl hnames (show ciphertext.length < 2 ^ 31 + 36 by omega))
  refine ⟨{ advanced with outgoing := c.outgoing ++ [raw] }, raw, ciphertext, ?_,
    ⟨hof, hholds, hc.username, hc.connected⟩, ?_, rfl, hcarries, hsealed⟩
  · rw [← hc.username] at hencrypt hsend
    rw [← hc.encryption.getDHBytes, ← hc.encryption.getIdentityBytes, ← hc.encryption.sign] at hsend
    unfold SendFileCommand.sendChunk
    refine (bind_ok hcounter).trans ?_
    rw [get_bind_run]
    refine (bind_ok hencrypt).trans ?_
    exact (bind_ok hadvance).trans hsend
  · have hadded := congrFun (counters_insert { c with messagesCounter := table } b.name
      (c.counters b.name + 1)) b.name
    rw [Function.update_self] at hadded
    exact hadded

/-- **The loop over the chunks.** By induction on them, with the counter going up by one each time;
    the statement has the counter at the start in it, as the chunks are numbered from there. -/
theorem sendChunks_run (hssl : ssl.Correct) (hnames : NamesFit a b filename)
    (chunks : List Bytes) (hchunks : ∀ chunk ∈ chunks, chunk.length ≤ 16 * 1024)
    (hc : c.Knows ssl a b) :
    ∃ c' raws ciphertexts,
      chunks.forM (SendFileCommand.sendChunk ssl b.name filename) c = .ok () c' ∧
      c'.Knows ssl a b ∧ c'.counters b.name = c.counters b.name + UInt64.ofNat chunks.length ∧
      c'.outgoing = c.outgoing ++ raws ∧
      List.Forall₂ Carries raws (ciphertexts.map (fileChunk ssl a b filename)) ∧
      SealedFrom ssl a b (c.counters b.name) chunks ciphertexts := by
  induction chunks generalizing c with
  | nil =>
    refine ⟨c, [], [], rfl, hc, ?_, (List.append_nil _).symm, .nil, .nil _⟩
    exact (UInt64.add_zero _).symm
  | cons chunk chunks ih =>
    obtain ⟨c₁, raw, ciphertext, hrun, hc₁, hcounter, hout, hcarries, hsealed⟩ :=
      sendChunk_run hssl hnames hc (hchunks chunk List.mem_cons_self)
    obtain ⟨c', raws, ciphertexts, hrest, hc', hcounter', hout', hcarries', hsealed'⟩ :=
      ih (fun d hd => hchunks d (List.mem_cons_of_mem chunk hd)) hc₁
    rw [hcounter] at hcounter' hsealed'
    refine ⟨c', raw :: raws, ciphertext :: ciphertexts, (bind_ok hrun).trans hrest, hc', ?_, ?_,
      .cons hcarries hcarries', .cons hsealed hsealed'⟩
    · rw [hcounter', List.length_cons, UInt64.ofNat_add, UInt64.add_assoc, UInt64.add_comm 1]
      rfl
    · rw [hout', hout, List.append_assoc]
      rfl

/-- **All that is sent for a file.** The start, the chunks and the end; the first and the last take
    no counter. -/
theorem sendFile_run (hssl : ssl.Correct) (hnames : NamesFit a b filename) (hc : c.Knows ssl a b)
    {content : Bytes} (hfile : c.contentAt filename = some content) :
    ∃ c' raws ciphertexts, SendFileCommand.executeOnClient ssl b.name filename c = .ok () c' ∧
      c'.counters b.name
        = c.counters b.name + UInt64.ofNat (content.toChunks (16 * 1024)).length ∧
      c'.outgoing = c.outgoing ++ raws ∧
      List.Forall₂ Carries raws
        (fileMessages ssl a b filename (UInt64.ofNat content.length) ciphertexts) ∧
      SealedFrom ssl a b (c.counters b.name) (content.toChunks (16 * 1024)) ciphertexts := by
  obtain ⟨start, hstart, hstarts⟩ := sendMessage_run
    (c := { c with opened := c.opened ++ [c.fileAt filename] }) hc.connected 6
    (fileStart_fits hssl hnames (UInt64.ofNat content.length))
  obtain ⟨c₁, raws, ciphertexts, hchunks, hc₁, hcounter, hout, hcarries, hsealed⟩ :=
    sendChunks_run (c := { c with
        opened := c.opened ++ [c.fileAt filename]
        outgoing := c.outgoing ++ [start] }) hssl hnames (content.toChunks (16 * 1024))
      (isCut_toChunks (by decide) content).fits ⟨hc.encryption, hc.holds, hc.username, hc.connected⟩
  obtain ⟨stop, hstop, hstops⟩ := sendMessage_run hc₁.connected 2 (fileEnd_fits hnames)
  refine ⟨{ c₁ with outgoing := c₁.outgoing ++ [stop] }, start :: (raws ++ [stop]), ciphertexts, ?_,
    hcounter, ?_, ?_, hsealed⟩
  · rw [sendFile_of_some hfile]
    unfold SendFileCommand.sendContent
    rw [hc.encryption.getDHBytes, hc.encryption.getIdentityBytes, hc.encryption.sign]
    exact (bind_ok hstart).trans ((bind_ok hchunks).trans hstop)
  · simp [hout]
  · exact .cons hstarts (List.rel_append hcarries (.cons hstops .nil))

/-! ## The recipient -/

theorem step_received {raw : Bytes} {m : Message} {handle : Message → ClientM Unit}
    (hm : Serializer.deserialize raw = .ok m)
    (hhandler : ClientMessageDispatcher.handler ssl m.getType = some handle) (c : ClientContext)
    (now : UInt64) :
    c.step ssl (.received now raw) = finalState (handle m) { c with now := now } :=
  (received_ok hm _).trans (clientDispatch_of_handler hhandler _)

/-- In the middle of a transfer: `written` has gone to the stream, which is over `file`, and
    `residue` is on disk. A stream that is closed writes its bytes over those that are there, so
    what is behind them stays. -/
structure Receiving (b : Account) (filename file : Bytes) (counters : Bytes → UInt64)
    (residue written : Bytes) (c : ClientContext) : Prop where
  encryption : c.encryption.IsOf b
  stream : c.pendingFiles (filePath b filename) = some { file := file, written := written }
  disk : c.disk file = some residue
  counters : c.counters = counters

theorem close_some (stream : OutFile) {disk : Table Bytes Bytes} {file : Bytes}
    (h : disk file = some []) : ∃ residue, stream.close disk file = some residue := by
  unfold OutFile.close
  by_cases hfile : file = stream.file
  · rw [hfile]
    exact ⟨_, Table.insert_self ..⟩
  · rw [Table.insert_of_ne hfile]
    exact ⟨[], h⟩

/-- The handler opens the file and so empties it. A stream that is open already is closed after
    that, and leaves its bytes: `pending_files[path] = std::move(out)` destroys the old stream when
    the new one has truncated the file. -/
theorem fileStart_run {m : Message} {size : UInt64} {path : Bytes}
    (hsize : readU64 (m.getMeta 2) 0 = .ok size) (hpath : fileKey m = path)
    (hwritable : c.writable (c.fileAt path) = true) :
    ∃ disk residue, ClientFileStartHandler.handleIncoming m c = .ok () { c with
        disk := disk
        pendingFiles := c.pendingFiles.insert path { file := c.fileAt path } } ∧
      disk (c.fileAt path) = some residue ∧ (c.pendingFiles path = none → residue = []) := by
  have hopened : c.disk.insert (c.fileAt path) [] (c.fileAt path) = some [] := Table.insert_self ..
  have hread : liftExcept (readU64 (m.getMeta 2) 0) c = .ok size c := by
    rw [hsize]
    rfl
  unfold ClientFileStartHandler.handleIncoming
  rw [hpath]
  cases hstream : c.pendingFiles path with
  | none =>
    refine ⟨c.disk.insert (c.fileAt path) [], [], ?_, hopened, fun _ => rfl⟩
    refine (bind_ok hread).trans ?_
    rw [get_bind_run, hwritable, hstream]
    rfl
  | some replaced =>
    obtain ⟨residue, hresidue⟩ := close_some replaced hopened
    refine ⟨_, residue, ?_, hresidue, fun h => by cases h⟩
    refine (bind_ok hread).trans ?_
    rw [get_bind_run, hwritable, hstream]
    rfl

/-- The key of a transfer: the recipient's own name, a space and the name of the file. -/
theorem fileKey_eq {m : Message} (hto : m.getMeta 0 = b.name) (hname : m.getMeta 1 = filename) :
    fileKey m = filePath b filename := by
  unfold fileKey
  rw [hto, hname]
  rfl

/-- **The stream is opened**, and nothing is in it. What is on disk then is empty, if no other
    stream was open under the same key. -/
theorem received_start {raw : Bytes} {size : UInt64}
    (hraw : Carries raw (fileStart ssl a b filename size)) (hc : c.encryption.IsOf b)
    (hwritable : c.writable (c.fileAt (filePath b filename)) = true) (now : UInt64) :
    ∃ residue, Receiving b filename (c.fileAt (filePath b filename)) c.counters residue []
        (c.step ssl (.received now raw)) ∧
      (c.pendingFiles (filePath b filename) = none → residue = []) := by
  obtain ⟨m, hm, hcontent⟩ := hraw
  obtain ⟨htype, hmeta, -⟩ := Message.of_content hcontent
  have hsize : readU64 (m.getMeta 2) 0 = .ok (UInt64.ofNat (leValue (writeU64 [] size))) := by
    have hread := readU64_append [] (writeU64 [] size) [] (by simp [writeU64])
    rw [List.nil_append, List.append_nil] at hread
    rw [hmeta 2]
    exact hread
  obtain ⟨disk, residue, hrun, hdisk, hresidue⟩ := fileStart_run (c := { c with now := now })
    hsize (fileKey_eq (hmeta 0) (hmeta 1)) hwritable
  refine ⟨residue, ?_, hresidue⟩
  rw [step_received hm (by rw [htype]; rfl), finalState_ok hrun]
  exact ⟨hc, Table.insert_self .., hdisk, rfl⟩

/-- What is written of chunks that are numbered from `n` on, when `own` is the recipient's counter
    for itself. The counter does not move, so of the chunks of a file at most one is written, but
    for a file of 2⁶⁴ chunks. -/
def acceptedChunks (own : UInt64) : UInt64 → List Bytes → Bytes
  | _, [] => []
  | n, chunk :: chunks => (if n = own then chunk else []) ++ acceptedChunks own (n + 1) chunks

/-- **A chunk is written or not.** The counter is the one for the name that the message is for,
    which is the recipient's own, and is left as it is. A chunk with another number is taken for a
    replay; the exception is caught by the dispatcher, and the stream is as it was. -/
theorem received_chunk (hssl : ssl.Correct) {counters : Bytes → UInt64}
    {file residue written : Bytes}
    {raw chunk ciphertext : Bytes} {n : UInt64}
    (hraw : Carries raw (fileChunk ssl a b filename ciphertext))
    (hsealed : a.SealedFor ssl b n chunk ciphertext)
    (hc : Receiving b filename file counters residue written c) (now : UInt64) :
    Receiving b filename file counters residue
      (written ++ if n = counters b.name then chunk else [])
      (c.step ssl (.received now raw)) := by
  obtain ⟨m, hm, hcontent⟩ := hraw
  obtain ⟨htype, hmeta, hpayload⟩ := Message.of_content hcontent
  obtain ⟨e, hcache, hof, hholds⟩ := cachePublicKey_holds hssl hc.encryption a
  have hpath : fileKey m = filePath b filename := fileKey_eq (hmeta 0) (hmeta 1)
  have hstream : c.pendingFiles (fileKey m) = some { file := file, written := written } := by
    rw [hpath]
    exact hc.stream
  have hcached : c.encryption.cachePublicKey ssl (m.getMeta 2) (m.getMeta 3) (m.getMeta 4)
      = (.ok (), e) := by
    rw [hmeta 2, hmeta 3, hmeta 4]
    exact hcache
  have hopen : c.encryption.openChunk ssl m (c.counters (m.getMeta 0))
      = if n = c.counters b.name then .ok chunk
        else .error (runtimeError "Replay attack detected or counter mismatch") := by
    unfold EncryptionService.openChunk
    rw [hcached, hmeta 0, hmeta 2, hmeta 5, hpayload]
    exact decryptFor_sealed hssl hof.dhKey hholds hsealed
  have hkeys : (ClientContext.withKeysOf ssl { c with now := now } m).encryption.IsOf b :=
    cachePublicKey_isOf hc.encryption ..
  have hcounters := withKeysOf_counters ssl { c with now := now } m
  rw [step_received hm (by rw [htype]; rfl), ← hc.counters]
  -- the number is the own counter, or the chunk is refused
  by_cases hn : n = c.counters b.name
  · rw [if_pos hn] at hopen ⊢
    rw [finalState_ok (fileChunk_opened (c := { c with now := now }) hstream hopen), hpath]
    exact ⟨hkeys, Table.insert_self .., hc.disk, hcounters⟩
  · rw [if_neg hn] at hopen ⊢
    rw [finalState_error (fileChunk_refused (c := { c with now := now }) hstream hopen),
      List.append_nil]
    exact ⟨hkeys, hc.stream, hc.disk, hcounters⟩

/-- **All chunks.** By induction on how they were sealed; what is written adds up to what
    `acceptedChunks` says. -/
theorem received_chunks (hssl : ssl.Correct) {counters : Bytes → UInt64} {file residue : Bytes}
    {n : UInt64} {chunks ciphertexts : List Bytes}
    (hsealed : SealedFrom ssl a b n chunks ciphertexts) {received : List Timed}
    (hreceived : List.Forall₂ Carries (received.map Prod.snd)
      (ciphertexts.map (fileChunk ssl a b filename))) {written : Bytes}
    (hc : Receiving b filename file counters residue written c) :
    Receiving b filename file counters residue
      (written ++ acceptedChunks (counters b.name) n chunks) (c.receive ssl received) := by
  induction hsealed generalizing received c written with
  | nil n =>
    cases received with
    | nil =>
      rw [acceptedChunks, List.append_nil]
      exact hc
    | cons r received => cases hreceived
  | cons hsealed hrest ih =>
    cases received with
    | nil => cases hreceived
    | cons r received =>
      cases hreceived with
      | cons hraw hreceived =>
        rw [acceptedChunks, ← List.append_assoc]
        exact ih hreceived (received_chunk hssl hraw hsealed hc r.1)

/-- **The stream is closed**, and its bytes are on disk, with what is left of those before. -/
theorem received_end (ssl : OpenSSL) {counters : Bytes → UInt64} {file residue written raw : Bytes}
    (hraw : Carries raw (fileEnd b filename))
    (hc : Receiving b filename file counters residue written c) (now : UInt64) :
    (c.step ssl (.received now raw)).disk file = some (written ++ residue.drop written.length) ∧
      (c.step ssl (.received now raw)).counters = counters := by
  obtain ⟨m, hm, hcontent⟩ := hraw
  obtain ⟨htype, hmeta, -⟩ := Message.of_content hcontent
  have hpath : fileKey m = filePath b filename := fileKey_eq (hmeta 0) (hmeta 1)
  have hrun : ClientFileEndHandler.handleIncoming m { c with now := now } = .ok () { c with
      now := now
      disk := OutFile.close { file := file, written := written } c.disk
      pendingFiles := c.pendingFiles.erase (filePath b filename) } := by
    unfold ClientFileEndHandler.handleIncoming
    rw [get_bind_run, hpath]
    dsimp only
    rw [hc.stream]
    rfl
  rw [step_received hm (by rw [htype]; rfl), finalState_ok hrun]
  refine ⟨?_, hc.counters⟩
  unfold OutFile.close
  dsimp only
  rw [hc.disk, Table.insert_self]
  rfl

theorem receive_append (c : ClientContext) (xs ys : List Timed) :
    c.receive ssl (xs ++ ys) = (c.receive ssl xs).receive ssl ys := by
  unfold ClientContext.receive ClientContext.run
  rw [List.map_append, List.foldl_append]

/-- The first, the chunks and the last. What has come is as long as what was sent, so it is cut
    where that is. -/
theorem received_parts {received : List Timed} {size : UInt64} {ciphertexts : List Bytes}
    (h : List.Forall₂ Carries (received.map Prod.snd)
      (fileMessages ssl a b filename size ciphertexts)) :
    ∃ start chunks stop, received = start :: (chunks ++ [stop]) ∧
      Carries start.2 (fileStart ssl a b filename size) ∧
      List.Forall₂ Carries (chunks.map Prod.snd) (ciphertexts.map (fileChunk ssl a b filename)) ∧
      Carries stop.2 (fileEnd b filename) := by
  cases received with
  | nil => cases h
  | cons start rest =>
    cases h with
    | cons hstart hrest =>
      have hchunks := List.forall₂_take_append _ _ _ hrest
      have hstop := List.forall₂_drop_append _ _ _ hrest
      rw [← List.map_take] at hchunks
      rw [← List.map_drop] at hstop
      cases hlast : rest.drop (ciphertexts.map (fileChunk ssl a b filename)).length with
      | nil =>
        rw [hlast] at hstop
        cases hstop
      | cons stop more =>
        rw [hlast] at hstop
        obtain ⟨hend, hmore⟩ := List.forall₂_cons.mp hstop
        have hnil : more = [] := List.map_eq_nil_iff.mp (List.forall₂_nil_right_iff.mp hmore)
        subst hnil
        refine ⟨start, _, stop, ?_, hstart, hchunks, hend⟩
        rw [← hlast, List.take_append_drop]

/-- **The whole file is received**, as far as its chunks are accepted. The counters are as before:
    nothing about the transfer is remembered. -/
theorem received_file (hssl : ssl.Correct) (hc : c.encryption.IsOf b)
    (hwritable : c.writable (c.fileAt (filePath b filename)) = true) {received : List Timed}
    {size n : UInt64}
    {chunks ciphertexts : List Bytes}
    (hreceived : List.Forall₂ Carries (received.map Prod.snd)
      (fileMessages ssl a b filename size ciphertexts))
    (hsealed : SealedFrom ssl a b n chunks ciphertexts) :
    ((c.receive ssl received.dropLast).pendingFiles (filePath b filename)).map OutFile.written
        = some (acceptedChunks (c.counters b.name) n chunks) ∧
      (c.pendingFiles (filePath b filename) = none →
        (c.receive ssl received).disk (c.fileAt (filePath b filename))
          = some (acceptedChunks (c.counters b.name) n chunks)) ∧
      (c.receive ssl received).counters = c.counters := by
  obtain ⟨start, middle, stop, rfl, hstart, hmiddle, hstop⟩ := received_parts hreceived
  obtain ⟨residue, hopened, hresidue⟩ := received_start hstart hc hwritable start.1
  have hfilled := received_chunks hssl hsealed hmiddle hopened
  rw [List.nil_append] at hfilled
  obtain ⟨hdisk, hcounters⟩ := received_end ssl hstop hfilled stop.1
  have hbefore : c.receive ssl (start :: middle)
      = (c.step ssl (.received start.1 start.2)).receive ssl middle := rfl
  have hafter : c.receive ssl (start :: (middle ++ [stop]))
      = (c.receive ssl (start :: middle)).step ssl (.received stop.1 stop.2) :=
    receive_append c (start :: middle) [stop]
  rw [hafter, hbefore, ← List.cons_append, List.dropLast_concat, hbefore]
  refine ⟨?_, ?_, hcounters⟩
  · rw [hfilled.stream]
    rfl
  · intro hnone
    rw [hdisk, hresidue hnone, List.drop_nil, List.append_nil]

end Messenger
