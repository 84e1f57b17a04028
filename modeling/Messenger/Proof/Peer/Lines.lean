import Mathlib.Data.List.TakeWhile
import Mathlib.Data.Nat.Digits.Defs
import Messenger.Proof.Parser.Parse
import Messenger.Proof.Peer.Said

/-!
# What the user of a peer types

A line is a text or a command, and neither the text nor an argument is longer than the line. So
what a peer sends because of a short line can be decoded: the text, or a `CONNECT` with its own
keys (`sendMsg_faithful`).

The port is the one argument that is converted and comes back: it is read by the parser with
`std::stoi`, kept as a number, and sent as text. `stoi_toString` says that the other side, which
reads it with `std::stoi` again, gets the same number, also a negative one. It is needed as a
`CONNECT` whose port cannot be read is not heard.

For the rest only lengths matter. All arguments together have at most one byte more than the line
(`parseLine_args_le`), so for a line that is short enough each of them fits into an entry, and the
last of them, which is the payload too, into the message.
-/

set_option autoImplicit false

namespace Messenger

open Messenger.Lib

/-! ## Lengths -/

theorem bytes_length_le (s : String) : (bytes s).length ≤ 4 * s.length := by
  have hchars : ∀ cs : List Char, cs.utf8Encode.size ≤ 4 * cs.length := by
    intro cs
    induction cs with
    | nil => simp
    | cons c cs ih =>
      have hsize := Char.utf8Size_le_four c
      rw [List.utf8Encode_cons, ByteArray.size_append, List.utf8Encode_singleton, List.length_cons]
      simp
      omega
  have hbytes := hchars s.toList
  rw [String.utf8Encode_toList, String.length_toList] at hbytes
  exact hbytes

/-- A port as text, with its sign. The bound is far from tight, and any would do that is below
    65535. -/
theorem port_length {port : Int} (h : -2 ^ 31 ≤ port ∧ port < 2 ^ 31) :
    (bytes (toString port)).length ≤ 44 := by
  have hdigits : ∀ n : Nat, n ≤ 2 ^ 31 → (Nat.repr n).length ≤ 10 := fun n hn =>
    Nat.repr_length n 10 (by decide) (by omega)
  have hlength : (toString port).length ≤ 11 := by
    cases port with
    | ofNat n =>
      have hrange : (n : Int) < 2 ^ 31 := h.2
      have hn := hdigits n (by omega)
      show (Nat.repr n).length ≤ 11
      omega
    | negSucc n =>
      have hn := hdigits (n + 1) (by omega)
      show ("-" ++ Nat.repr (n + 1)).length ≤ 11
      rw [String.length_append]
      exact (Nat.add_le_add_left hn _).trans (by decide)
  have hbytes := bytes_length_le (toString port)
  omega

/-- What `std::stoi` returns fits an `int`. The three cases are those of the sign. -/
theorem stoi_range {text : Bytes} {value : Int} (h : stoi text = .ok value) :
    -2 ^ 31 ≤ value ∧ value < 2 ^ 31 := by
  have hdigits {negative : Bool} {text : Bytes} (h : stoiDigits negative text = .ok value) :
      -2 ^ 31 ≤ value ∧ value < 2 ^ 31 := by
    unfold stoiDigits at h
    extract_lets digits magnitude value' at h
    split at h
    · cases h
    · split at h
      · rename_i hrange
        obtain rfl : value' = value := Except.ok.inj h
        exact hrange
      · cases h
  unfold stoi at h
  split at h
  · exact hdigits h
  · exact hdigits h
  · exact hdigits h

/-! ## Numbers

A port is sent as a decimal number, and read back as it was. -/

theorem digit_range {c : Char} (h : c.isDigit = true) : 0x30 ≤ c.toNat ∧ c.toNat ≤ 0x39 := by
  rw [Char.isDigit, Bool.and_eq_true, decide_eq_true_eq, decide_eq_true_eq] at h
  exact ⟨UInt32.le_iff_toNat_le.mp h.1, UInt32.le_iff_toNat_le.mp h.2⟩

/-- A digit is one byte in UTF-8, and the byte is its code. -/
theorem bytes_digits {cs : List Char} (h : ∀ c ∈ cs, c.isDigit = true) :
    bytes (String.ofList cs) = cs.map fun c => UInt8.ofNat c.toNat := by
  show cs.utf8Encode.data.toList = _
  induction cs with
  | nil => rfl
  | cons c cs ih =>
    have hsmall : c.val.toNat ≤ 127 := (digit_range (h c List.mem_cons_self)).2.trans (by decide)
    rw [List.utf8Encode_cons, ByteArray.data_append, Array.toList_append,
      ih fun c hc => h c (List.mem_cons_of_mem _ hc), List.utf8Encode_singleton,
      String.utf8EncodeChar, if_pos hsmall, List.map_cons]
    rfl

/-- The digits of a number are characters, one byte each. -/
def decimal (n : Nat) : Bytes := (Nat.toDigits 10 n).map fun c => UInt8.ofNat c.toNat

theorem bytes_toString (n : Nat) : bytes (toString n) = decimal n := by
  rw [Nat.toString_eq_ofList_toDigits]
  exact bytes_digits fun c => Nat.isDigit_of_mem_toDigits (by decide) (by decide)

theorem digit_byte {n : Nat} {c : Char} (hc : c ∈ Nat.toDigits 10 n) :
    (UInt8.ofNat c.toNat).toNat = c.toNat ∧ 0x30 ≤ c.toNat ∧ c.toNat ≤ 0x39 := by
  have hrange := digit_range (Nat.isDigit_of_mem_toDigits (by decide) (by decide) hc)
  exact ⟨UInt8.toNat_ofNat_of_lt' (hrange.2.trans_lt (by decide)), hrange⟩

theorem decimal_digit {n : Nat} {b : UInt8} (hb : b ∈ decimal n) : 0x30 ≤ b ∧ b ≤ 0x39 := by
  obtain ⟨c, hc, rfl⟩ := List.mem_map.mp hb
  obtain ⟨hbyte, hrange⟩ := digit_byte hc
  rw [UInt8.le_iff_toNat_le, UInt8.le_iff_toNat_le, hbyte]
  exact hrange

/-- Read as a number they give the number back: the loop of `stoi` is that of `Nat.ofDigitChars`. -/
theorem decimal_value (n : Nat) :
    (decimal n).foldl (fun n c => 10 * n + (c.toNat - 0x30)) 0 = n := by
  unfold decimal
  rw [List.foldl_map]
  refine Eq.trans ?_ (Nat.ofDigitChars_eq_foldl.symm.trans Nat.ofDigitChars_ten_toDigits)
  refine List.foldl_ext _ _ _ fun sofar c hc => ?_
  rw [(digit_byte hc).1]
  rfl

/-- Without a sign. All bytes are digits, so none is left out, and there is at least one. -/
theorem stoiDigits_decimal (negative : Bool) (n : Nat) {value : Int}
    (hvalue : value = if negative then -(n : Int) else n)
    (hrange : -2 ^ 31 ≤ value ∧ value < 2 ^ 31) :
    stoiDigits negative (decimal n) = .ok value := by
  have hdigits : (decimal n).takeWhile (fun c => 0x30 ≤ c && c ≤ 0x39) = decimal n := by
    refine List.takeWhile_eq_self_iff.mpr fun b hb => ?_
    obtain ⟨hlow, hhigh⟩ := decimal_digit hb
    simp [hlow, hhigh]
  have hne : (decimal n).isEmpty = false := by simp [decimal, Nat.toDigits_ne_nil]
  unfold stoiDigits
  simp only [hdigits, decimal_value, hne, ← hvalue]
  rw [if_neg (by simp), if_pos hrange]

/-- A digit is neither white space nor a sign, so `stoi` begins with the first. -/
theorem stoi_decimal (n : Nat) : stoi (decimal n) = stoiDigits false (decimal n) := by
  have hplain : ∀ b : UInt8,
      (0x30 ≤ b ∧ b ≤ 0x39 → Parser.isSpace b = false ∧ b ≠ 0x2D ∧ b ≠ 0x2B) :=
    forall_byte (by decide +kernel)
  -- the first byte decides, and it is a digit
  cases hn : decimal n with
  | nil => rfl
  | cons b rest =>
    obtain ⟨hspace, hminus, hplus⟩ := hplain b (decimal_digit (hn ▸ List.mem_cons_self))
    unfold stoi
    rw [List.dropWhile_cons_of_neg (by simp [hspace])]
    split
    · rename_i h
      exact absurd (List.cons.inj h).1 hminus
    · rename_i h
      exact absurd (List.cons.inj h).1 hplus
    · rfl

/-- **A port that is sent is read back**, also a negative one, which the parser lets pass. -/
theorem stoi_toString {value : Int} (h : -2 ^ 31 ≤ value ∧ value < 2 ^ 31) :
    stoi (bytes (toString value)) = .ok value := by
  cases value with
  | ofNat n =>
    show stoi (bytes (toString n)) = _
    rw [bytes_toString, stoi_decimal]
    exact stoiDigits_decimal false n rfl h
  | negSucc n =>
    have hsign : bytes (toString (Int.negSucc n)) = 0x2D :: decimal (n + 1) := by
      show bytes ("-" ++ toString (n + 1)) = _
      rw [← bytes_toString]
      unfold bytes
      rw [String.toByteArray_append, ByteArray.data_append, Array.toList_append]
      rfl
    rw [hsign]
    show stoiDigits true (decimal (n + 1)) = _
    exact stoiDigits_decimal true (n + 1) rfl h

/-! ## The parser -/

/-- The arguments have no more bytes than the line, and one. For a template this is `captures_le`,
    and for the words of a stream it is the same without the spaces. -/
theorem parseLine_args_le (line : Bytes) :
    ((Parser.parseLine line).args.map List.length).sum ≤ line.length + 1 := by
  unfold Parser.parseLine
  split
  · exact Nat.zero_le _
  · cases hmatch : CommandPatternMatcher.match_ defaultCommandCatalog line with
    | some found =>
      obtain ⟨pattern, -, hfound⟩ :=
        (CommandPatternMatcher.match_eq_some_iff (List.Perm.refl _)).mp hmatch
      have hcaptures := (CommandPatternMatcher.captures_le
        (CommandPatternMatcher.tryMatch_eq_some_iff.mp hfound).1).1
      have hcost := CommandPatternMatcher.tokenCost_splitLoop [] line
      rw [List.length_nil, Nat.zero_add] at hcost
      exact hcaptures.trans hcost
    | none =>
      have hwords := sum_length_fields_le Parser.isSpace line
      dsimp only
      unfold Parser.parseWords
      split
      · exact Nat.zero_le _
      · rename_i first tokens htokens
        have hfields : fields Parser.isSpace line = first :: tokens := htokens
        rw [hfields, List.map_cons, List.sum_cons] at hwords
        dsimp only
        omega

/-- **A line is a text or a command.** An empty line is a text without bytes. A command has entries
    that are no longer than the line, by one byte at most, for the code that stands alone in the
    first. -/
theorem parse_text_or_command {now : UInt64} {line : Bytes} {msg : Message}
    (h : Parser.parse now line = .ok msg) :
    (msg.Built ∧ msg.content = .plain .text [] line) ∨
      (msg.getType = .command ∧ ∀ i, (msg.getMeta i).length ≤ line.length + 1) := by
  cases line with
  | nil =>
    cases h
    exact .inl ⟨⟨rfl, rfl, show 6 < 2 ^ 32 by decide⟩, rfl⟩
  | cons c rest =>
    unfold Parser.parse at h
    dsimp only at h
    split at h
    · obtain ⟨hmetadata, -, -, htype⟩ := makeCommandFromStruct_inv h
      have hargs := parseLine_args_le (c :: rest)
      refine .inr ⟨htype, fun i => ?_⟩
      unfold Message.getMeta
      rw [hmetadata, List.getD_eq_getElem?_getD]
      cases hentry : (Parser.parseLine (c :: rest)).content.metadata[i]? with
      | none => exact Nat.zero_le _
      | some entry =>
        rcases List.mem_cons.mp (List.mem_of_getElem? hentry) with rfl | hmem
        · exact Nat.le_add_left ..
        · have hle := List.single_le_sum (fun _ _ => Nat.zero_le _) _
            (List.mem_map_of_mem (f := List.length) hmem)
          exact hle.trans hargs
    · let m₀ : Message := { header := { type := .text, protocolVersion := 1, timestamp := now } }
      have hm₀ : m₀.Built := ⟨rfl, rfl, show 6 < 2 ^ 32 by decide⟩
      obtain ⟨-, -, hsize, -⟩ := setPayload_inv h
      obtain ⟨m, hm, hbuilt, hpayload, hmetadata, htype⟩ := setPayload_ok hm₀ hsize
      obtain rfl : msg = m := Except.ok.inj (h.symm.trans hm)
      refine .inl ⟨hbuilt, ?_⟩
      rw [hbuilt.content_eq, hpayload, hmetadata, htype]

/-! ## The peer -/

variable {P : Type} {ssl : OpenSSL} {E : Sayings P} {p : P} {n : Nat}
  {callback : Option (List (Fd × Bytes) → PeerNode.DataAnswer)} {s : MessagingPeer}

namespace MessagingPeer

/-- Its buffers hold what was said, and what it knows is true. This is the invariant of one peer
    among others, and all of it is about what has been said so far: the lemmas below are about one
    line, and `Proof/Peer/Network` lets the group grow. -/
structure Faithful (ssl : OpenSSL) (E : Sayings P) (p : P) (n : Nat)
    (callback : Option (List (Fd × Bytes) → PeerNode.DataAnswer)) (s : MessagingPeer) : Prop where
  node : s.node.Carrying (Honest ssl E) n callback
  context : s.context.Informed ssl E p

/-- A call of the node changes the buffers, and what is known stays as it is. -/
theorem onNode_faithful {α : Type} {x : PeerM α} (hs : s.Faithful ssl E p n callback)
    (hx : EndsIn (PeerNode.Carrying (Honest ssl E) n callback) x s.node) :
    EndsIn (Faithful ssl E p n callback) (onNode x) s := by
  have hnode := hx.state
  refine ⟨?_, fun _ => trivial⟩
  unfold finalState onNode
  cases hrun : x s.node with
  | ok a node =>
    rw [finalState_ok hrun] at hnode
    exact ⟨hnode, hs.context⟩
  | error e node =>
    rw [finalState_error hrun] at hnode
    exact ⟨hnode, hs.context⟩

theorem liftFailure_bind_faithful {α β : Type} {x : Except Failure α} {f : α → MessagingPeerM β}
    (hs : s.Faithful ssl E p n callback)
    (hf : ∀ a, x = .ok a → EndsIn (Faithful ssl E p n callback) (f a) s) :
    EndsIn (Faithful ssl E p n callback) (liftFailure x >>= f) s := by
  cases x with
  | ok a => exact .after_ok rfl (hf a rfl)
  | error e => exact ⟨hs, fun _ => trivial⟩

/-- A `CONNECT` with the own keys is said, if it fits. The address is what was typed, so its length
    has to be bounded; the keys have the lengths that they always have. -/
theorem connectMessage_honest (hssl : ssl.Correct) {c : PeerContext} (hc : c.Is E p)
    {cmd : ConnectCommand} (hip : cmd.ip.length ≤ 65535)
    (hport : -2 ^ 31 ≤ cmd.port ∧ cmd.port < 2 ^ 31) {m : Message}
    (hm : connectMessage ssl c cmd = .ok m) : Honest ssl E (Serializer.serialize m) := by
  have hkeys : c.encryption.publicKeys ssl = E.keys ssl p := hc.publicKeys
  obtain ⟨hdh, hed, hsignature⟩ := keys_lengths hssl E p
  have hsaid : Said ssl E (.plain .command [[CommandType.connect.toByte], cmd.ip,
      bytes (toString cmd.port), (E.keys ssl p).publicDHKey, (E.keys ssl p).publicIdentityKey,
      (E.keys ssl p).signature] c.myUsername) := .connect hc.name _ _
  rw [← hkeys] at hsaid hdh hed hsignature
  obtain ⟨hbuilt, hmetadata⟩ := new_built hm
  have hcontent := new_content hm
  refine (show Said ssl E m.content from hcontent ▸ hsaid).honest hbuilt ?_ ?_ ?_
  · simp [hmetadata]
  · rw [hmetadata]
    intro e he
    simp only [List.mem_cons, List.not_mem_nil, or_false] at he
    rcases he with rfl | rfl | rfl | rfl | rfl | rfl
    · decide
    · exact hip
    · exact (port_length hport).trans (by decide)
    · exact hdh.le.trans (by decide)
    · exact hed.le.trans (by decide)
    · exact hsignature.le.trans (by decide)
  · rw [show m.payload = c.myUsername from congrArg Content.payload hcontent]
    exact hc.short

/-- `/connect`. Without a login nothing is done, nor without a connection; otherwise the request is
    queued. -/
theorem connectFromPeer_faithful (hssl : ssl.Correct) (hs : s.Faithful ssl E p n callback)
    (answer : LineAnswer) {cmd : ConnectCommand} (hip : cmd.ip.length ≤ 65535)
    (hport : -2 ^ 31 ≤ cmd.port ∧ cmd.port < 2 ^ 31) :
    EndsIn (Faithful ssl E p n callback) (connectFromPeer ssl answer cmd) s := by
  refine .get_bind ?_
  split
  · exact .pure _ hs
  · refine EndsIn.bind (onNode_faithful hs (connectToPeer_carrying hs.node _ _)) fun fd t ht => ?_
    split
    · exact .pure _ ht
    · refine liftFailure_bind_faithful ht fun msg hmsg => onNode_faithful ht ?_
      exact sendToPeer_carrying (fun _ h => h.short) ht.node fd
        (connectMessage_honest hssl hs.context.toIs hip hport hmsg)

/-- One case for each command. For `/login` the name has to be one that the group knows, which is
    what makes it grow. -/
theorem sendCommand_faithful (hssl : ssl.Correct) (hs : s.Faithful ssl E p n callback)
    (answer : LineAnswer) {msg : Message} (hshort : ∀ i, (msg.getMeta i).length ≤ 65535)
    {cmd : PeerCommand} (hnamed : cmd = .login → E.named p (msg.getMeta 1)) :
    EndsIn (Faithful ssl E p n callback) (sendCommand ssl answer msg cmd) s := by
  cases cmd with
  | exit => exact onNode_faithful hs (stop_carrying hs.node _)
  | connect =>
    refine liftFailure_bind_faithful hs fun cmd hcmd => ?_
    unfold ConnectCommand.fromMessage at hcmd
    cases hport : stoi (msg.getMeta 2) with
    | error e =>
      rw [hport] at hcmd
      cases hcmd
    | ok port =>
      rw [hport] at hcmd
      cases hcmd
      exact connectFromPeer_faithful hssl hs answer (hshort 1) (stoi_range hport)
  | disconnect => exact .pure _ hs
  | pmess => exact .pure _ hs
  | login =>
    have hc := hs.context
    refine .modify ⟨hs.node, ⟨hc.dhKey, hc.identityKey, hnamed rfl, ?_⟩, hc.directory, hc.shown⟩
    exact lt_of_le_of_lt (hshort 1) (by decide)

theorem text_honest {msg : Message} {line : Bytes} (hline : line.length < 65535)
    (htyped : E.typed line) (hbuilt : msg.Built) (hcontent : msg.content = .plain .text [] line) :
    Honest ssl E (Serializer.serialize msg) := by
  have hmetadata : msg.metadata = [] := congrArg Content.metadata hcontent
  have hpayload : msg.payload = line := congrArg Content.payload hcontent
  have hsaid : Said ssl E msg.content := hcontent ▸ .text htyped
  refine hsaid.honest hbuilt ?_ ?_ ?_
  · simp [hmetadata]
  · simp [hmetadata]
  · rw [hpayload]
    omega

theorem ofByte_login (code : UInt8) :
    CommandType.ofByte code = .login → code = CommandType.login.toByte := by
  revert code
  exact forall_byte (by decide +kernel)

theorem find_login {msg : Message} (htype : msg.getType = .command)
    (h : PeerCommandRegistry.find (Parser.makeStructFromCommand msg).name = some .login) :
    msg.IsCommand .login := by
  rw [find_onPeer] at h
  obtain ⟨code, hcode, hlogin⟩ := Option.bind_eq_some_iff.mp h
  obtain ⟨byte, hbyte, rfl⟩ := Option.map_eq_some_iff.mp hcode
  have hcommand : CommandType.ofByte byte = .login := by
    revert hlogin
    cases CommandType.ofByte byte <;> intro hlogin <;> first | rfl | cases hlogin
  rw [ofByte_login byte hcommand] at hbyte
  exact ⟨htype, hbyte⟩

/-- **What a line does to a peer.** A text goes to all connections, a command to its handler. What
    the handler throws is caught, and leaves what has been done; the invariant holds in any case,
    since it is about buffers and not about results. -/
theorem sendMsg_faithful (hssl : ssl.Correct) (hs : s.Faithful ssl E p n callback)
    (answer : LineAnswer) {line : Bytes} (hline : line.length < 65535) (htyped : E.typed line)
    (hnamed : ∀ msg, Parser.parse s.context.now line = .ok msg → msg.IsCommand .login →
      E.named p (msg.getMeta 1)) :
    EndsIn (Faithful ssl E p n callback) (sendMsg ssl answer line) s := by
  refine .get_bind (liftFailure_bind_faithful hs fun msg hmsg => ?_)
  refine EndsIn.bind ?_ fun _ t ht => .pure _ ht
  unfold dispatchSending
  split
  · exact .pure _ hs
  · rename_i handle hhandler
    refine ⟨?_, fun _ => trivial⟩
    rw [finalState_catchException, finalState_bind_pure]
    rcases parse_text_or_command hmsg with ⟨hbuilt, hcontent⟩ | ⟨htype, hshort⟩
    · rw [show msg.getType = .text from congrArg Content.type hcontent] at hhandler
      cases hhandler
      exact (onNode_faithful hs (broadcast_carrying (fun _ h => h.short) hs.node _
        (text_honest hline htyped hbuilt hcontent))).state
    · rw [htype] at hhandler
      cases hhandler
      dsimp only
      split
      · exact hs
      · rename_i cmd hfind
        refine (sendCommand_faithful hssl hs answer (fun i => ?_) ?_).state
        · exact (hshort i).trans (by omega)
        · rintro rfl
          exact hnamed msg hmsg (find_login htype hfind)

end MessagingPeer

end Messenger
