import Messenger.Proof.Conversation.Counters
import Messenger.Proof.Server.Access
import Messenger.Proof.Server.Bytes
import Messenger.Proof.Transfer.Clients
import Messenger.Proof.Wire.Relay

/-!
# Does the file arrive?

The server passes the messages of a transfer on as they are, so the two ends decide. The
sender's counter for the recipient has gone up by the number of chunks, the recipient's for
the sender has not moved. And as the number of the chunks changes and the counter they are
compared with does not, at most one in 2^64 of them is written. So an empty file is the only
one that arrives and leaves the counters equal.

The condition is more than that the content arrives. A file of one chunk does arrive if the chunk
happens to have the number that the recipient's counter for itself has, for example because neither
counter has moved; but then the sender's counter is one ahead of the recipient's, and the next
private message is refused. With two chunks or more one of them is not written. So the counters and
the file are considered together, and only the empty file is left.
-/

set_option autoImplicit false

namespace Messenger

open Messenger.Lib

/-! ## The server -/

/-- A message of a transfer to `name`. -/
inductive Content.IsFileFor (name : Bytes) : Content → Prop
  | mk {type : MessageType} {metadata : List Bytes} {payload : Bytes} (htype : type.IsFile)
      (hfits : (Content.plain type (name :: metadata) payload).FitsCompact) :
      IsFileFor name (.plain type (name :: metadata) payload)

/-- What was decoded can be encoded again, if the compact format can hold it. The server decodes and
    encodes, so this is what it means that it passes a message on. -/
theorem reencoded_carries {raw : Bytes} {m : Message} {content : Content}
    (hm : Serializer.deserialize raw = .ok m) (hcontent : m.content = content)
    (hfits : content.FitsCompact) : Carries (Serializer.serialize m) content := by
  subst hcontent
  obtain ⟨f, _, -, hframe, hmetalen⟩ := deserialize_sound_metalen hm
  refine (f.fitsWire hframe hmetalen ?_ fun _ => hfits.count_fits).carries
  rw [← metadata_of_content hframe, ← payload_of_content hframe]
  exact hfits.size_fits

variable {s : ServerContext} {g : Fd} {name : Bytes}

/-- **One message is passed on** to the connection of the name in its first entry. Who has sent it
    does not matter. -/
theorem onTcpDataReceived_file (fd : Fd) (hsession : s.sessions.getFd name = .ok g) {raw : Bytes}
    {content : Content} (hraw : Carries raw content) (hcontent : content.IsFileFor name) :
    ∃ msg, MessagingServer.onTcpDataReceived fd raw s = .ok () { s with
        fd := fd
        outbox := s.outbox ++ [(g, .serialized msg)] } ∧
      Carries (Serializer.serialize msg) content := by
  obtain ⟨m, hm, hcontent'⟩ := hraw
  cases hcontent with
  | mk htype hfits =>
    obtain ⟨hmtype, hmeta, -⟩ := Message.of_content hcontent'
    have hto : m.getMeta 0 = name := hmeta 0
    refine ⟨m, ?_, reencoded_carries hm hcontent' hfits⟩
    have hhandler : ServerMessageDispatcher.handler m.getType = some forwardFile := by
      rw [hmtype]
      exact htype.handler
    rw [onTcpDataReceived_ok hm]
    refine handleMessage_of_handler hhandler (forwardFile_run ?_)
    rw [hto]
    exact hsession

/-- **All messages are passed on**, in order. By induction on the messages; the sessions do not
    change, so the recipient stays on its connection. -/
theorem relay_packetsFor (fd : Fd) {handled : List Timed} {contents : List Content}
    (hhandled : List.Forall₂ Carries (handled.map Prod.snd) contents)
    (hcontents : ∀ content ∈ contents, content.IsFileFor name)
    (hsession : s.sessions.getFd name = .ok g) :
    ∃ raws, (s.relay fd handled).packetsFor g = s.packetsFor g ++ raws ∧
      List.Forall₂ Carries raws contents := by
  induction contents generalizing s handled with
  | nil =>
    cases handled with
    | nil => exact ⟨[], (List.append_nil _).symm, .nil⟩
    | cons m handled => cases hhandled
  | cons content contents ih =>
    cases handled with
    | nil => cases hhandled
    | cons m handled =>
      cases hhandled with
      | cons hraw hhandled =>
        obtain ⟨msg, hrun, hcarries⟩ := onTcpDataReceived_file (s := { s with now := m.1 }) fd
          hsession hraw (hcontents content List.mem_cons_self)
        have hstep : s.relay fd (m :: handled) = ServerContext.relay fd { s with
            now := m.1
            fd := fd
            outbox := s.outbox ++ [(g, .serialized msg)] } handled := by
          rw [← finalState_ok hrun]
          rfl
        obtain ⟨raws, hraws, hrest⟩ := ih
          (s := { s with now := m.1, fd := fd, outbox := s.outbox ++ [(g, .serialized msg)] })
          hhandled
          (fun content' h => hcontents content' (List.mem_cons_of_mem _ h)) hsession
        refine ⟨Serializer.serialize msg :: raws, ?_, .cons hcarries hrest⟩
        rw [hstep, hraws]
        simp [ServerContext.packetsFor, Packet.bytes]

/-! ## From end to end -/

section

variable {ssl : OpenSSL} {a b : Account} {filename : Bytes} {n : UInt64}

/-- A chunk of 16 KiB is a few bytes longer when it is encrypted. -/
theorem SealedFrom.ciphertext_length {chunks ciphertexts : List Bytes}
    (h : SealedFrom ssl a b n chunks ciphertexts)
    (hchunks : ∀ chunk ∈ chunks, chunk.length ≤ 16 * 1024) :
    ∀ ciphertext ∈ ciphertexts, ciphertext.length < 2 ^ 31 + 36 := by
  induction h with
  | nil n => simp
  | cons hsealed _ ih =>
    intro ciphertext hmem
    rcases List.mem_cons.mp hmem with rfl | hmem
    · have hchunk := hchunks _ List.mem_cons_self
      have hlen := hsealed.length
      omega
    · exact ih (fun chunk h => hchunks chunk (List.mem_cons_of_mem _ h)) ciphertext hmem

theorem fileMessages_isFileFor (hssl : ssl.Correct) (hnames : NamesFit a b filename) (size : UInt64)
    {ciphertexts : List Bytes} (h : ∀ ciphertext ∈ ciphertexts, ciphertext.length < 2 ^ 31 + 36) :
    ∀ content ∈ fileMessages ssl a b filename size ciphertexts, content.IsFileFor b.name := by
  intro content hmem
  rcases List.mem_cons.mp hmem with rfl | hmem
  · exact .mk .start (fileStart_fits hssl hnames size)
  · rcases List.mem_append.mp hmem with hmem | hmem
    · obtain ⟨ciphertext, hciphertext, rfl⟩ := List.mem_map.mp hmem
      exact .mk .chunk (fileChunk_fits hssl hnames (h ciphertext hciphertext))
    · rw [List.mem_singleton.mp hmem]
      exact .mk .stop (fileEnd_fits hnames)

end

namespace Transfer

/-- The chunks that `SendFileCommand` makes of the file. -/
def chunks (t : Transfer) : List Bytes := t.content.toChunks (16 * 1024)

theorem isCut_chunks (t : Transfer) : IsCut (16 * 1024) t.content t.chunks :=
  isCut_toChunks (by decide) t.content

/-- What is left of the file at the recipient. -/
def arriving (t : Transfer) : Bytes :=
  acceptedChunks (t.target.counters t.recipient.name) (t.source.counters t.recipient.name) t.chunks

variable {ssl : OpenSSL} {t : Transfer} {handled received : List Timed}

/-- **What a transfer does**, said without running it. The sender, the server and the recipient in
    turn; what the one puts out is what the next one gets. -/
theorem outcome (hssl : ssl.Correct) (ht : t.Ready ssl) (h : t.Carried ssl handled received) :
    t.written ssl received = some t.arriving ∧
      (t.target.pendingFiles t.path = none →
        (t.done ssl received).disk (t.target.fileAt t.path) = some t.arriving) ∧
      (t.sent ssl).counters t.recipient.name
        = t.source.counters t.recipient.name + UInt64.ofNat t.chunks.length ∧
      (t.done ssl received).counters = t.target.counters := by
  obtain ⟨c', raws, ciphertexts, hrun, hcounter, hout, hcarries, hsealed⟩ :=
    sendFile_run (c := { t.source with outgoing := [] }) hssl ht.names
      ⟨ht.source.encryption, ht.source.holds, ht.source.username, ht.source.connected⟩ ht.file
  have hsent : t.sent ssl = c' := finalState_ok hrun
  have hraws : handled.map Prod.snd = raws := by
    rw [h.sent, hsent, hout]
    rfl
  rw [← hraws] at hcarries
  obtain ⟨raws', hraws', hcarries'⟩ := relay_packetsFor
    (s := { t.server with outbox := [] }) t.sourceFd hcarries
    (fileMessages_isFileFor hssl ht.names _ (hsealed.ciphertext_length t.isCut_chunks.fits))
      ht.session
  have hreceived : received.map Prod.snd = raws' := h.relayed.trans hraws'
  rw [← hreceived] at hcarries'
  obtain ⟨hwritten, hsaved, hcounters⟩ :=
    received_file hssl ht.target.encryption ht.writable hcarries' hsealed
  rw [← hsent] at hcounter
  exact ⟨hwritten, hsaved, hcounter, hcounters⟩

end Transfer

/-! ## Only the empty file -/

theorem acceptedChunks_length_le (own n : UInt64) (chunks : List Bytes) :
    (acceptedChunks own n chunks).length ≤ chunks.flatten.length := by
  induction chunks generalizing n with
  | nil => exact Nat.le_refl 0
  | cons chunk chunks ih =>
    have hrest := ih (n + 1)
    rw [acceptedChunks, List.flatten_cons, List.length_append, List.length_append]
    split
    · omega
    · rw [List.length_nil]
      omega

/-- Two chunks in a row are never both accepted, as they have different numbers. So if all are
    accepted there is at most one; chunks without bytes would spoil this, and there are none. -/
theorem length_le_one_of_all_accepted {own n : UInt64} {chunks : List Bytes}
    (hnonempty : ∀ chunk ∈ chunks, chunk ≠ []) (h : acceptedChunks own n chunks = chunks.flatten) :
    chunks.length ≤ 1 := by
  match chunks with
  | [] => exact Nat.zero_le 1
  | [_] => exact Nat.le_refl 1
  | first :: second :: rest =>
    have hfirst := List.length_pos_iff.mpr (hnonempty first (by simp))
    have hsecond := List.length_pos_iff.mpr (hnonempty second (by simp))
    have hrest := acceptedChunks_length_le own (n + 1 + 1) rest
    have hlength := congrArg List.length h
    simp only [acceptedChunks, List.flatten_cons, List.length_append] at hlength
    by_cases hn : n = own
    · have hnext : n + 1 ≠ own := by
        intro hnext
        cases UInt64.add_eq_left.mp (hnext.trans hn.symm)
      rw [if_pos hn, if_neg hnext, List.length_nil] at hlength
      omega
    · rw [if_neg hn, List.length_nil] at hlength
      split at hlength
      · omega
      · rw [List.length_nil] at hlength
        omega

/-- **A file arrives and leaves the counters equal** exactly if it is empty. A file of one chunk may
    arrive, if the recipient has never advanced the counter for its own name and the sender's is
    zero; but then the sender's counter has moved and the recipient's has not, and the next private
    message between the two will be refused. -/
theorem file_delivered_iff {ssl : OpenSSL} (hssl : ssl.Correct) {t : Transfer} (ht : t.Ready ssl)
    {handled received : List Timed} (hcarried : t.Carried ssl handled received) :
    t.Delivered ssl received ↔ t.content = [] := by
  obtain ⟨hwritten, hsaved, hsender, htarget⟩ := Transfer.outcome hssl ht hcarried
  have hcut := t.isCut_chunks
  have hbefore : t.source.counters t.recipient.name = t.target.counters t.sender.name := ht.counters
  constructor
  · intro h
    have harriving : t.arriving = t.content := Option.some.inj (hwritten.symm.trans h.written)
    have hafter : (t.sent ssl).counters t.recipient.name
        = (t.done ssl received).counters t.sender.name := h.counters
    rw [hsender, htarget, ← hbefore] at hafter
    have hmoved : UInt64.ofNat t.chunks.length = 0 := UInt64.add_eq_left.mp hafter
    -- Of two chunks one would be lost, and one chunk would move the sender's counter.
    have hfew : t.chunks.length ≤ 1 :=
      length_le_one_of_all_accepted hcut.nonempty (harriving.trans hcut.flatten.symm)
    have hnone : t.chunks = [] := by
      rcases Nat.le_one_iff_eq_zero_or_eq_one.mp hfew with hzero | hone
      · exact List.length_eq_zero_iff.mp hzero
      · rw [hone] at hmoved
        cases hmoved
    rw [← hcut.flatten, hnone]
    rfl
  · intro hempty
    have hchunks : t.chunks = [] := by
      unfold Transfer.chunks
      rw [hempty]
      rfl
    have harriving : t.arriving = t.content := by
      unfold Transfer.arriving
      rw [hchunks, hempty]
      rfl
    rw [harriving] at hwritten hsaved
    refine ⟨hwritten, hsaved, ?_⟩
    have hafter : (t.sent ssl).counters t.recipient.name = t.target.counters t.sender.name := by
      rw [hsender, hchunks, ← hbefore]
      exact UInt64.add_zero _
    exact hafter.trans (congrFun htarget _).symm

/-- Alice sends Bob a file, when both have the same counter. -/
def letter (content : Bytes) (counter : UInt64) : Transfer where
  sender := twoUsers .alice
  recipient := twoUsers .bob
  filename := bytes "a.txt"
  content := content
  source := { twoOnline.client .alice with
    messagesCounter := Table.empty.insert (bytes "bob") counter
    disk := Table.empty.insert (bytes "a.txt") content }
  server := twoOnline.server
  target := { twoOnline.client .bob with
    messagesCounter := Table.empty.insert (bytes "alice") counter }
  sourceFd := twoFds .alice
  targetFd := twoFds .bob

theorem letter_ready (content : Bytes) (counter : UInt64) :
    (letter content counter).Ready clearSSL := by
  have halice := twoOnline_fresh.client .alice
  have hbob := twoOnline_fresh.client .bob
  have hname : (bytes "a.txt").length ≤ 65535 := by decide
  exact {
    source := ⟨halice.encryption, halice.holds, halice.username, halice.connected⟩
    target := ⟨hbob.encryption, hbob.holds, hbob.username, hbob.connected⟩
    counters := rfl
    names := ⟨twoUsers_peers.names_fit .alice, twoUsers_peers.names_fit .bob, hname⟩
    file := Table.insert_self Table.empty (bytes "a.txt") content
    writable := rfl
    session := twoOnline_fresh.server.connection .bob }

theorem Transfer.carried_exists (ssl : OpenSSL) (t : Transfer) :
    ∃ handled received, t.Carried ssl handled received := by
  have hzero (raws : List Bytes) : (raws.map fun raw => ((0 : UInt64), raw)).map Prod.snd
      = raws := by
    rw [List.map_map]
    exact List.map_id raws
  exact ⟨_, _, hzero _, hzero _⟩

theorem empty_letter_delivered :
    ∃ handled received, (letter [] 1).Carried clearSSL handled received ∧
      (letter [] 1).Delivered clearSSL received := by
  obtain ⟨handled, received, hcarried⟩ := (letter [] 1).carried_exists clearSSL
  exact ⟨handled, received, hcarried,
    (file_delivered_iff clearSSL_correct (letter_ready [] 1) hcarried).mpr rfl⟩

/-- After a private message from Alice to Bob both counters are one. Bob's counter for himself
    is not, so nothing of the file is written. -/
theorem letter_lost :
    (letter (bytes "hi") 1).Ready clearSSL ∧
      ∃ handled received, (letter (bytes "hi") 1).Carried clearSSL handled received ∧
        (letter (bytes "hi") 1).written clearSSL received = some [] ∧
        ¬(letter (bytes "hi") 1).Delivered clearSSL received := by
  obtain ⟨handled, received, hcarried⟩ := (letter (bytes "hi") 1).carried_exists clearSSL
  obtain ⟨hwritten, -, -, -⟩ := Transfer.outcome clearSSL_correct (letter_ready _ _) hcarried
  have hnothing : (letter (bytes "hi") 1).arriving = [] := by decide
  rw [hnothing] at hwritten
  refine ⟨letter_ready _ _, handled, received, hcarried, hwritten, ?_⟩
  intro h
  cases hwritten.symm.trans h.written

/-- Between clients that have never written to each other the first chunk arrives, and Alice's
    counter alone moves. -/
example :
    (letter (bytes "hi") 0).arriving = bytes "hi" ∧ (letter (bytes "hi") 0).chunks.length = 1 := by
  decide

end Messenger
