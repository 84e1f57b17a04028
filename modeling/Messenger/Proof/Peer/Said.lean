import Messenger.Proof.Peer.Framed
import Messenger.Proof.Peer.Names
import Messenger.Proof.Wire.Command
import Messenger.Proof.Wire.Mutation

/-!
# What peers say, and what they learn from it

A peer that runs this program says three things: texts that its user types, `CONNECT` with its own
name and keys, and the response to one, with the same. `Said` lists them, for a group of peers of
which it is known what keys they have, which names they have had and what has been typed.

Who hears only such messages learns nothing else: the entries of its directory are entries of
peers, each with all keys of one and under a name of that one (`PeerDirectory.Authentic`), and the
lines it prints are texts that were typed. And what it answers is said again.

The notion is about what a message is taken for by the one who decodes it and not about its bytes,
so there are two directions to it. A peer builds a message with the constructor or with the
mutators, and what is built so is decoded as it was meant, as long as it is small enough
(`Message.Built.arrives`). A peer that decodes one gets no more out of it than was said
(`Said.heard`).

The group may grow in the meantime, by a login or by a line. Everything that has been said stays
said, and so all notions here are monotone.
-/

set_option autoImplicit false

namespace Messenger

open Messenger.Lib

variable {P : Type}

/-! ## Messages -/

/-- The keys that a peer sends of itself, with the signature of the first by the second. -/
def EncryptionService.publicKeys (ssl : OpenSSL) (e : EncryptionService) : User where
  publicDHKey := e.getDHBytes ssl
  publicIdentityKey := e.getIdentityBytes ssl
  signature := e.sign ssl

/-- A group of peers: their own keys, the names they have had, the texts that have been typed. It
    grows with the run, so all that follows is about any such group, and is monotone in it. -/
structure Sayings (P : Type) where
  own : P → EncryptionService
  named : P → Name → Prop
  typed : Bytes → Prop

section

variable (ssl : OpenSSL) (E : Sayings P)

def Sayings.keys (p : P) : User := (E.own p).publicKeys ssl

/-- What one of them may say. Anyone who has had a name may introduce themselves under it, with
    their own keys; the address and the port of a `CONNECT` are of no consequence to who hears
    it. -/
inductive Said : Content → Prop
  | text {text : Bytes} (htext : E.typed text) : Said (.plain .text [] text)
  | connect {p : P} {u : Name} (hname : E.named p u) (ip port : Bytes) :
      Said (.plain .command [[CommandType.connect.toByte], ip, port, (E.keys ssl p).publicDHKey,
        (E.keys ssl p).publicIdentityKey, (E.keys ssl p).signature] u)
  | response {p : P} {u : Name} (hname : E.named p u) :
      Said (.plain .response [[CommandType.connect.toByte], (E.keys ssl p).publicDHKey,
        (E.keys ssl p).publicIdentityKey, (E.keys ssl p).signature] u)

/-- Bytes that say it, and are short enough for a frame. The bytes are not said to be what the
    encoder makes: what matters is what the decoder makes of them. -/
structure Honest (raw : Bytes) : Prop where
  short : raw.length < 2 ^ 32 - 4
  carries : ∃ c, Carries raw c ∧ Said ssl E c

end

variable {ssl : OpenSSL} {E E' : Sayings P} {msg : Message} {raw : Bytes} {p : P}
    {c c' : PeerContext}

/-- More names and more texts. The keys stay the same, since a peer has them from the start. -/
structure Sayings.Le (E E' : Sayings P) : Prop where
  own : E'.own = E.own
  named : ∀ p u, E.named p u → E'.named p u
  typed : ∀ text, E.typed text → E'.typed text

theorem Sayings.Le.keys (h : E.Le E') (p : P) : E'.keys ssl p = E.keys ssl p := by
  unfold Sayings.keys
  rw [h.own]

theorem Said.mono (hE : E.Le E') {content : Content} (h : Said ssl E content) :
    Said ssl E' content := by
  cases h with
  | text htext => exact .text (hE.typed _ htext)
  | connect hname ip port =>
    simp only [← hE.keys]
    exact .connect (hE.named _ _ hname) ip port
  | response hname =>
    simp only [← hE.keys]
    exact .response (hE.named _ _ hname)

theorem Said.type {content : Content} (h : Said ssl E content) :
    0 ≤ content.type.code ∧ content.type.code ≤ 255 := by
  have htypes : content.type ∈ [MessageType.text, .command, .response] := by
    cases h <;> simp [Content.plain]
  have hcodes : ∀ type ∈ [MessageType.text, .command, .response],
      0 ≤ type.code ∧ type.code ≤ 255 := by decide
  exact hcodes _ htypes

theorem Honest.mono (hE : E.Le E') (h : Honest ssl E raw) : Honest ssl E' raw := by
  obtain ⟨content, hcarries, hsaid⟩ := h.carries
  exact ⟨h.short, content, hcarries, hsaid.mono hE⟩

/-- A message that was built and is small enough arrives as it is, and fits into a frame. Six
    entries are the most that any of the messages has. -/
theorem Message.Built.arrives {m : Message} (hbuilt : m.Built)
    (htype : 0 ≤ m.content.type.code ∧ m.content.type.code ≤ 255) (hcount : m.metadata.length ≤ 6)
    (hentries : ∀ e ∈ m.metadata, e.length ≤ 65535) (hpayload : m.payload.length < 2 ^ 30) :
    (Serializer.serialize m).length < 2 ^ 32 - 4 ∧ Carries (Serializer.serialize m) m.content := by
  have hfits : m.content.FitsCompact := by
    rw [hbuilt.content_eq]
    exact Content.plain_fits htype (by omega) hentries (by omega)
  have hsum : (m.metadata.map fun e => 2 + e.length).sum ≤ 6 * 65537 := by
    have hcard := List.sum_le_card_nsmul (m.metadata.map fun e => 2 + e.length) 65537 ?_
    · rw [List.length_map] at hcard
      exact hcard.trans (Nat.mul_le_mul_right 65537 hcount)
    · intro n hn
      obtain ⟨e, he, rfl⟩ := List.mem_map.mp hn
      have hlength := hentries e he
      omega
  refine ⟨?_, (hbuilt.fitsWire hfits).carries⟩
  rw [serialize_compact_length hbuilt.compact]
  show 2 + (m.metadata.map fun e => 2 + e.length).sum + 4 + m.payload.length < _
  omega

theorem Said.honest {m : Message} (h : Said ssl E m.content) (hbuilt : m.Built)
    (hcount : m.metadata.length ≤ 6) (hentries : ∀ e ∈ m.metadata, e.length ≤ 65535)
    (hpayload : m.payload.length < 2 ^ 30) : Honest ssl E (Serializer.serialize m) := by
  obtain ⟨hshort, hcarries⟩ := hbuilt.arrives h.type hcount hentries hpayload
  exact ⟨hshort, m.content, hcarries, h⟩

/-- What a decoded message can be about: an introduction is that of a peer with its own keys, a text
    has been typed, and there is nothing else. The last field excludes the other commands, of which
    `DISCONNECT` and `LOGIN` would do something. -/
structure Message.Heard (ssl : OpenSSL) (E : Sayings P) (msg : Message) : Prop where
  introduces : ∀ u keys, msg.introduces = some (u, keys) → ∃ p, E.named p u ∧ keys = E.keys ssl p
  text : msg.getType = .text → E.typed msg.getPayload
  notCipher : msg.getType ≠ .cipherMessage
  code : ∀ code, (msg.getMeta 0).head?.map CommandType.ofByte = some code → code = .connect

/-- Who decodes one of the three gets no more out of it than was said. The cases are those of
    `Said`, and each field of `Heard` is read off from the entries; an introduction is the case that
    counts, as the keys are found where the encoder has put them, in one of two layouts. -/
theorem Said.heard (h : Said ssl E msg.content) : msg.Heard ssl E := by
  generalize hcontent : msg.content = content at h
  cases h with
  | text htext =>
    obtain ⟨htype, hmeta, hpayload⟩ := Message.of_content hcontent
    refine ⟨fun u keys hkeys => ?_, fun _ => hpayload ▸ htext, ?_, fun code hcode => ?_⟩
    · rw [Message.introduces, hmeta] at hkeys
      cases hkeys
    · rw [htype]
      intro h
      cases h
    · rw [hmeta] at hcode
      cases hcode
  | @connect p u hname ip port =>
    obtain ⟨htype, hmeta, hpayload⟩ := Message.of_content hcontent
    refine ⟨fun v keys hkeys => ?_, fun htext => ?_, ?_, fun code hcode => ?_⟩
    · unfold Message.introduces at hkeys
      rw [htype, hpayload] at hkeys
      simp only [hmeta] at hkeys
      cases hkeys
      exact ⟨p, hname, rfl⟩
    · rw [htype] at htext
      cases htext
    · rw [htype]
      intro h
      cases h
    · rw [hmeta] at hcode
      exact (Option.some.inj hcode).symm
  | @response p u hname =>
    obtain ⟨htype, hmeta, hpayload⟩ := Message.of_content hcontent
    refine ⟨fun v keys hkeys => ?_, fun htext => ?_, ?_, fun code hcode => ?_⟩
    · unfold Message.introduces at hkeys
      rw [htype, hpayload] at hkeys
      simp only [hmeta] at hkeys
      cases hkeys
      exact ⟨p, hname, rfl⟩
    · rw [htype] at htext
      cases htext
    · rw [htype]
      intro h
      cases h
    · rw [hmeta] at hcode
      exact (Option.some.inj hcode).symm

theorem Honest.heard (h : Honest ssl E raw) :
    ∃ msg, Serializer.deserialize raw = .ok msg ∧ msg.Heard ssl E := by
  obtain ⟨content, ⟨msg, hmsg, rfl⟩, hsaid⟩ := h.carries
  exact ⟨msg, hmsg, hsaid.heard⟩

/-! ## The directory -/

/-- Nothing is known of the name, or it is the name of a peer, and its keys are in all tables. The
    tables agree in either case, which `Consistent` alone does not say: keys of a released name
    would stay in use. -/
inductive PeerDirectory.Entry (ssl : OpenSSL) (E : Sayings P) (d : PeerDirectory) (u : Name) : Prop
  | unknown (huser : d.users u = none) (hdh : d.dhKeys u = none) (hed : d.identityKeys u = none)
  | known (p : P) (hname : E.named p u) (huser : d.users u = some (E.keys ssl p))
      (hdh : d.dhKeys u = some (E.keys ssl p).publicDHKey)
      (hed : d.identityKeys u = some (E.keys ssl p).publicIdentityKey)

def PeerDirectory.Authentic (ssl : OpenSSL) (E : Sayings P) (d : PeerDirectory) : Prop :=
  ∀ u, d.Entry ssl E u

theorem PeerDirectory.Authentic.mono {d : PeerDirectory} (hE : E.Le E') (h : d.Authentic ssl E) :
    d.Authentic ssl E' := by
  intro u
  cases h u with
  | unknown huser hdh hed => exact .unknown huser hdh hed
  | known p hname huser hdh hed =>
    rw [← hE.keys p] at huser hdh hed
    exact .known p (hE.named p u hname) huser hdh hed

/-- What is heard keeps the directory authentic. A new name comes with the keys of one peer, and
    OpenSSL takes them, as it has made them: so they are in all tables. A `DISCONNECT` is not among
    what is said, or the cached keys would be left behind. -/
theorem PeerDirectory.Authentic.change {d d' : PeerDirectory} {fd : Fd} (hssl : ssl.Correct)
    (h : d.Authentic ssl E) (hmsg : msg.Heard ssl E) (hchange : d.Change ssl fd msg d') :
    d'.Authentic ssl E := by
  cases hchange with
  | none => exact h
  | @register u keys hintroduces hfresh =>
    obtain ⟨p, hname, rfl⟩ := hmsg.introduces u keys hintroduces
    have hdh : ssl.dhAccepts (E.keys ssl p).publicDHKey = true := hssl.dh_accepts _
    have hed : ssl.edAccepts (E.keys ssl p).publicIdentityKey = true := hssl.ed_accepts _
    intro v
    -- the new name, and all the others
    by_cases hv : v = u
    · subst hv
      refine .known p hname ?_ ?_ ?_ <;> simp [PeerDirectory.register, hdh, hed]
    · cases h v with
      | unknown huser hdh' hed' =>
        refine .unknown ?_ ?_ ?_ <;>
          simpa [PeerDirectory.register, hdh, hed, Table.insert_of_ne hv]
      | known q hname' huser hdh' hed' =>
        refine .known q hname' ?_ ?_ ?_ <;>
          simpa [PeerDirectory.register, hdh, hed, Table.insert_of_ne hv]
  | release hdisconnect hbound =>
    have hcode := hmsg.code (.ofByte CommandType.disconnect.toByte)
      (by rw [hdisconnect.code]; rfl)
    exact absurd hcode (by decide)

/-! ## Contexts -/

/-- The context of `p`: it has the keys of `p`, and a name that `p` has had. -/
structure PeerContext.Is (E : Sayings P) (p : P) (c : PeerContext) : Prop where
  dhKey : c.encryption.dhKey = (E.own p).dhKey
  identityKey : c.encryption.identityKey = (E.own p).identityKey
  name : E.named p c.myUsername
  short : c.myUsername.length < 2 ^ 30

/-- What it knows of others is true of them. -/
structure PeerContext.Informed (ssl : OpenSSL) (E : Sayings P) (p : P) (c : PeerContext) : Prop
    extends PeerContext.Is E p c where
  directory : c.directory.Authentic ssl E
  shown : ∀ line ∈ c.shown, ∃ text, E.typed text ∧ line = bytes "Peer got message " ++ text

theorem PeerContext.Is.publicKeys (h : c.Is E p) : c.encryption.publicKeys ssl = E.keys ssl p := by
  unfold Sayings.keys EncryptionService.publicKeys EncryptionService.getDHBytes
    EncryptionService.getIdentityBytes EncryptionService.sign
  rw [h.dhKey, h.identityKey]

theorem PeerContext.Is.mono (hE : E.Le E') (h : c.Is E p) : c.Is E' p where
  dhKey := by rw [hE.own]; exact h.dhKey
  identityKey := by rw [hE.own]; exact h.identityKey
  name := hE.named p _ h.name
  short := h.short

theorem PeerContext.Informed.mono (hE : E.Le E') (h : c.Informed ssl E p) :
    c.Informed ssl E' p where
  toIs := h.toIs.mono hE
  directory := h.directory.mono hE
  shown line hline := by
    obtain ⟨text, htyped, hprinted⟩ := h.shown line hline
    exact ⟨text, hE.typed text htyped, hprinted⟩

theorem PeerContext.Is.of_self (h : c.Is E p) (hself : c'.self = c.self) : c'.Is E p := by
  obtain ⟨hdh, hed, hname, -⟩ : c'.encryption.dhKey = c.encryption.dhKey ∧
      c'.encryption.identityKey = c.encryption.identityKey ∧ c'.myUsername = c.myUsername ∧
      c'.fd = c.fd ∧ c'.now = c.now := by
    simpa [PeerContext.self] using hself
  exact ⟨hdh.trans h.dhKey, hed.trans h.identityKey, hname ▸ h.name, hname ▸ h.short⟩

theorem keys_lengths (hssl : ssl.Correct) (E : Sayings P) (p : P) :
    (E.keys ssl p).publicDHKey.length = 32 ∧ (E.keys ssl p).publicIdentityKey.length = 32 ∧
      (E.keys ssl p).signature.length = 64 :=
  ⟨hssl.dh_length _, hssl.ed_length _, hssl.signature_length _ _⟩

/-- The answer to what was said is said by the one who gives it. It is the response to a `CONNECT`;
    the answer to a `LOGIN` does not occur, as no peer sends one to another. -/
theorem PeerContext.Reply.honest (hssl : ssl.Correct) (hc : c.Is E p) (hmsg : msg.Heard ssl E)
    (h : c.Reply ssl msg raw) : Honest ssl E raw := by
  have hkeys : c.encryption.publicKeys ssl = E.keys ssl p := hc.publicKeys
  obtain ⟨hdh, hed, hsignature⟩ := keys_lengths hssl E p
  cases h with
  | pubkey hcode hm => exact absurd (hmsg.code _ hcode) (by decide)
  | @connect m hm =>
    have hsaid : Said ssl E (.plain .response [[CommandType.connect.toByte],
        (E.keys ssl p).publicDHKey, (E.keys ssl p).publicIdentityKey, (E.keys ssl p).signature]
        c.myUsername) := .response hc.name
    rw [← hkeys] at hsaid hdh hed hsignature
    obtain ⟨hbuilt, hmetadata⟩ := new_built hm
    have hcontent := new_content hm
    refine (show Said ssl E m.content from hcontent ▸ hsaid).honest hbuilt ?_ ?_ ?_
    · simp [hmetadata]
    · rw [hmetadata]
      intro e he
      simp only [List.mem_cons, List.not_mem_nil, or_false] at he
      rcases he with rfl | rfl | rfl | rfl
      · decide
      · exact hdh.le.trans (by decide)
      · exact hed.le.trans (by decide)
      · exact hsignature.le.trans (by decide)
    · rw [show m.payload = c.myUsername from congrArg Content.payload hcontent]
      exact hc.short

/-- **One call of the callback.** The parts of `Receives` give the parts of `Informed`, one by
    one. -/
theorem PeerContext.Receives.informed (hssl : ssl.Correct) (h : c.Receives ssl msg c')
    (hc : c.Informed ssl E p) (hmsg : msg.Heard ssl E) : c'.Informed ssl E p where
  toIs := hc.toIs.of_self h.self
  directory := hc.directory.change hssl hmsg h.change
  shown line hline := by
    obtain ⟨lines, hshown, hlines⟩ := h.shown
    rw [hshown] at hline
    rcases List.mem_append.mp hline with hold | hnew
    · exact hc.shown line hold
    · cases hlines line hnew with
      | text htype => exact ⟨msg.getPayload, hmsg.text htype, rfl⟩
      | cipher htype => exact absurd htype hmsg.notCipher

theorem PeerContext.Informed.on (hc : c.Informed ssl E p) (fd : Fd) :
    { c with fd := fd }.Informed ssl E p :=
  ⟨⟨hc.dhKey, hc.identityKey, hc.name, hc.short⟩, hc.directory, hc.shown⟩

theorem onData_informed (hssl : ssl.Correct) (hc : c.Informed ssl E p) (fd : Fd)
    (hraw : Honest ssl E raw) :
    (finalState (PeerContext.onData ssl fd raw) c).Informed ssl E p := by
  obtain ⟨msg, hmsg, hheard⟩ := hraw.heard
  exact (onData_receives ssl hmsg fd c).informed hssl (hc.on fd) hheard

theorem afterCalls_informed (hssl : ssl.Correct) {calls : List (Fd × Bytes)}
    (hcalls : ∀ call ∈ calls, Honest ssl E call.2) (hc : c.Informed ssl E p) :
    (MessagingPeer.afterCalls ssl c calls).Informed ssl E p := by
  induction calls generalizing c with
  | nil => exact hc
  | cons call calls ih =>
    have hcall := onData_informed hssl hc call.1 (hcalls call List.mem_cons_self)
    exact ih (fun other hother => hcalls other (List.mem_cons_of_mem _ hother)) hcall

/-! ## The callback -/

/-- Whatever is received, a peer stays the same. This needs no assumption about what it is. -/
theorem onData_is (ssl : OpenSSL) (hc : c.Is E p) (fd : Fd) (raw : Bytes) :
    (finalState (PeerContext.onData ssl fd raw) c).Is E p := by
  cases hmsg : Serializer.deserialize raw with
  | error x =>
    rw [finalState_error (onData_error ssl hmsg fd c)]
    exact hc
  | ok msg =>
    have hon : { c with fd := fd }.Is E p := ⟨hc.dhKey, hc.identityKey, hc.name, hc.short⟩
    exact hon.of_self (onData_receives ssl hmsg fd c).self

theorem afterCalls_is (ssl : OpenSSL) (hc : c.Is E p) (calls : List (Fd × Bytes)) :
    (MessagingPeer.afterCalls ssl c calls).Is E p := by
  induction calls generalizing c with
  | nil => exact hc
  | cons call calls ih => exact ih (onData_is ssl hc call.1 call.2)

theorem onData_replies (hssl : ssl.Correct) (hc : c.Is E p) (hsent : c.sent = []) (fd : Fd)
    (hraw : Honest ssl E raw) :
    ∀ r ∈ (finalState (PeerContext.onData ssl fd raw) c).sent, Honest ssl E r.2 := by
  obtain ⟨msg, hmsg, hheard⟩ := hraw.heard
  obtain ⟨replies, hreplies, hall⟩ := (onData_receives ssl hmsg fd c).sent
  have hon : { c with fd := fd }.Is E p := ⟨hc.dhKey, hc.identityKey, hc.name, hc.short⟩
  intro r hr
  rw [hreplies] at hr
  have hmem : r ∈ replies := by simpa [hsent] using hr
  exact (hall r hmem).2.honest hssl hon hheard

/-- **The callback of a peer is polite.** It is a function of all calls so far, of which it replays
    those before the last one to find the context; these need not have been honest, since all that
    is used of the context is whose it is. The second case, a call that lies before the start, does
    not occur, and the callback does nothing then. -/
theorem onDataCallback_polite (hssl : ssl.Correct) (hc : c.Is E p) (before : Nat) :
    Polite (Honest ssl E) (MessagingPeer.onDataCallback ssl c before) := by
  intro calls fd raw hraw
  unfold MessagingPeer.onDataCallback
  by_cases hbefore : before ≤ calls.length
  · rw [List.drop_append_of_le_length hbefore, List.getLast?_concat]
    dsimp only
    rw [List.dropLast_concat]
    let c₀ := { MessagingPeer.afterCalls ssl c (calls.drop before) with sent := [] }
    have hafter := afterCalls_is ssl hc (calls.drop before)
    have hc₀ : c₀.Is E p := ⟨hafter.dhKey, hafter.identityKey, hafter.name, hafter.short⟩
    have hreplies := onData_replies hssl hc₀ rfl fd hraw
    cases hrun : PeerContext.onData ssl fd raw c₀ with
    | ok u t =>
      rw [finalState_ok hrun] at hreplies
      exact hreplies
    | error e t =>
      rw [finalState_error hrun] at hreplies
      exact hreplies
  · have hnone : (calls ++ [(fd, raw)]).drop before = [] := by
      apply List.drop_eq_nil_of_le
      rw [List.length_append, List.length_singleton]
      omega
    rw [hnone]
    intro r hr
    cases hr

end Messenger
