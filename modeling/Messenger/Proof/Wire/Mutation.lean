import Messenger.Lib.Run
import Messenger.Proof.Wire.Encode

/-!
# A message through calls that may throw

`insert_metadata` and `set_payload` assign first and check afterwards. A call that passes the
check leaves a message in order. One that does not has already changed the message, and the
exception does not change it back. So a message is in order after each of a number of calls
exactly if each of them found room for what it brings.

Both calls are an assignment followed by the same check (`call_eq`), so one lemma for each way the
check may end is enough. That the check passes where there is room is arithmetic. That it fails
where there is none is not only that: the count of the entries is a byte, and with one entry too
many it is zero. The message then has 256 entries, a count of zero and the size of the message
before; nothing in the source puts this right, as no call takes an entry away.
-/

set_option autoImplicit false

namespace Messenger

open Messenger.Lib

/-- The call, on the message itself. `MessageOp.apply` gives a new message or an exception and so
    forgets what the exception leaves behind; here it is kept. -/
def MessageOp.call : MessageOp → EStateM Failure Message Unit
  | .insertMetadata entry => Message.insertMetadataInPlace entry
  | .setPayload payload => Message.setPayloadInPlace payload

namespace Message

/-- The message after a call, also when the call has thrown. -/
def afterCall (msg : Message) (op : MessageOp) : Message := finalState op.call msg

/-- The message after a number of calls, of which any may have thrown. Whoever catches the exception
    goes on with what is there. -/
def afterCalls (msg : Message) (ops : List MessageOp) : Message := ops.foldl afterCall msg

/-- The messages that the constructors make. A message can also be decoded, but no such message is
    changed afterwards: both calls are made by the parser, on a message of its own. -/
inductive Constructed : Message → Prop
  -- `Message()`
  | default : Constructed {}
  | new {now : UInt64} {payload : Bytes} {metalen : UInt8} {metadata : List Bytes}
      {type : MessageType} {msg : Message}
      (h : Message.new now payload metalen metadata type = .ok msg) : Constructed msg

/-- The message is in order after the call, and a call that throws has done nothing. The header says
    the size that the encoder writes, and `validate` accepts the message. The last field is the
    strong guarantee that one might expect of the two calls, and the only one that can fail without
    the others. -/
structure Survives (msg : Message) (op : MessageOp) : Prop where
  valid : (msg.afterCall op).validate = true
  length_eq : (msg.afterCall op).header.length.toNat
    = compactSize (msg.afterCall op).metadata (msg.afterCall op).payload
  serialized : (Serializer.serialize (msg.afterCall op)).length
    = compactSize (msg.afterCall op).metadata (msg.afterCall op).payload
  unchanged : ∀ x msg', op.call msg = .error x msg' →
    msg'.metadata = msg.metadata ∧ msg'.metalen = msg.metalen ∧ msg'.payload = msg.payload ∧
      msg'.header.length = msg.header.length

/-- There is room for what the call brings: in the byte that counts the entries, and in the word
    that holds the size. The entry is not asked to be shorter than 64 KB, which neither of the calls
    checks. -/
def HasRoom (msg : Message) : MessageOp → Prop
  | .insertMetadata entry =>
    msg.metadata.length < 255 ∧ compactSize (msg.metadata ++ [entry]) msg.payload < 2 ^ 32
  | .setPayload payload => compactSize msg.metadata payload < 2 ^ 32

/-- What the call has assigned when the size is checked. -/
def assign (msg : Message) : MessageOp → Message
  | .insertMetadata entry =>
    { msg with
      metadata := msg.metadata ++ [entry]
      metalen := UInt8.ofNat (msg.metadata ++ [entry]).length }
  | .setPayload payload => { msg with payload := payload }

end Message

open Message

variable {msg : Message} {op : MessageOp}

/-! ## One call -/

theorem updateLength_ok {length : UInt32}
    (h : computeSerializedSize msg.metalen msg.metadata msg.payload = .ok length) :
    updateLength msg = .ok () { msg with header := { msg.header with length := length } } := by
  unfold updateLength
  rw [get_bind_run, h]
  rfl

/-- The exception leaves what has been assigned before it. -/
theorem updateLength_error {x : Failure}
    (h : computeSerializedSize msg.metalen msg.metadata msg.payload = .error x) :
    updateLength msg = .error x msg := by
  unfold updateLength
  rw [get_bind_run, h]
  rfl

/-- Either call is an assignment followed by `updateLength`: this is all that the proofs use of
    them. -/
theorem call_eq (op : MessageOp) (msg : Message) : op.call msg = updateLength (msg.assign op) := by
  cases op with
  | insertMetadata entry => rfl
  | setPayload payload => rfl

/-- A call that returns leaves what the function of the same name gives, so the results about
    `Message.apply` are about the calls as well. -/
theorem call_of_apply {msg' : Message} (h : msg.apply op = .ok msg') :
    op.call msg = .ok () msg' := by
  rw [call_eq]
  cases op with
  | insertMetadata entry =>
    rw [Message.apply, Message.insertMetadata] at h
    cases hc : computeSerializedSize (UInt8.ofNat (msg.metadata ++ [entry]).length)
        (msg.metadata ++ [entry]) msg.payload with
    | error x =>
      rw [hc] at h
      cases h
    | ok length =>
      rw [hc] at h
      cases h
      exact updateLength_ok hc
  | setPayload payload =>
    rw [Message.apply, Message.setPayload] at h
    cases hc : computeSerializedSize msg.metalen msg.metadata payload with
    | error x =>
      rw [hc] at h
      cases h
    | ok length =>
      rw [hc] at h
      cases h
      exact updateLength_ok hc

theorem assign_built (hmsg : msg.Built) (h : msg.HasRoom op) : (msg.assign op).Built := by
  have hcompact := useExtendedFormat_eq_false.mp hmsg.compact
  cases op with
  | insertMetadata entry =>
    have hcount : (msg.metadata ++ [entry]).length < 256 := by
      have hroom := h.1
      rw [List.length_append, List.length_singleton]
      omega
    exact ⟨useExtendedFormat_eq_false.mpr hcompact, toNat_ofNat8 hcount, h.2⟩
  | setPayload payload => exact ⟨useExtendedFormat_eq_false.mpr hcompact, hmsg.metalen_eq, h⟩

/-- Where there is none it does not. For an entry too many, the count is zero modulo 256 and not the
    number of entries; no assumption about the message is needed for this. -/
theorem size_error_of_no_room (h : ¬msg.HasRoom op) :
    ∃ x, computeSerializedSize (msg.assign op).metalen (msg.assign op).metadata
      (msg.assign op).payload = .error x := by
  cases hc : computeSerializedSize (msg.assign op).metalen (msg.assign op).metadata
      (msg.assign op).payload with
  | error x => exact ⟨x, rfl⟩
  | ok length =>
    exfalso
    apply h
    obtain ⟨hcount, hsize⟩ := computeSerializedSize_inv hc
    cases op with
    | insertMetadata entry =>
      have hbyte := (msg.assign (.insertMetadata entry)).metalen.toNat_lt
      have hlength : (msg.assign (.insertMetadata entry)).metadata.length
          = msg.metadata.length + 1 := by
        show (msg.metadata ++ [entry]).length = _
        rw [List.length_append, List.length_singleton]
      refine ⟨?_, hsize⟩
      omega
    | setPayload payload => exact hsize

theorem Message.Built.validate (hmsg : msg.Built) : msg.validate = true := by
  unfold Message.validate
  rw [hmsg.metalen_eq, (useExtendedFormat_eq_false.mp hmsg.compact).2]
  simp

theorem call_of_room (hmsg : msg.Built) (h : msg.HasRoom op) :
    op.call msg = .ok () { msg.assign op with
      header := { msg.header with
        length :=
          UInt32.ofNat (compactSize (msg.assign op).metadata (msg.assign op).payload) } } := by
  have hassign := assign_built hmsg h
  rw [call_eq, updateLength_ok (computeSerializedSize_ok hassign.metalen_eq hassign.size_fits)]
  cases op with
  | insertMetadata entry => rfl
  | setPayload payload => rfl

/-- A call that finds room leaves the message in order, and in the state that the next call starts
    from. The fourth field of `Survives` is empty here: nothing is thrown. -/
theorem afterCall_of_room (hmsg : msg.Built) (h : msg.HasRoom op) :
    (msg.afterCall op).Built ∧ msg.Survives op := by
  have hassign := assign_built hmsg h
  have hcall := call_of_room hmsg h
  have hafter := finalState_ok hcall
  have hbuilt : (msg.afterCall op).Built := by
    unfold afterCall
    rw [hafter]
    refine ⟨useExtendedFormat_eq_false.mpr ?_, hassign.metalen_eq, hassign.size_fits⟩
    obtain ⟨henvelope, -⟩ := useExtendedFormat_eq_false.mp hassign.compact
    exact ⟨henvelope, (useExtendedFormat_eq_false.mp hmsg.compact).2⟩
  refine ⟨hbuilt, hbuilt.validate, ?_, serialize_compact_length hbuilt.compact, ?_⟩
  · unfold afterCall
    rw [hafter]
    exact UInt32.toNat_ofNat_of_lt' hassign.size_fits
  · intro x msg' hthrow
    rw [hcall] at hthrow
    cases hthrow

/-- **One call.** Without room the call throws, and then the message must be as it was. For an entry
    it is longer. For a payload it could be the same, if the payload that is set is the one that is
    there already; but that one had room, as the message was in order. -/
theorem survives_iff_room (hmsg : msg.Built) (op : MessageOp) :
    msg.Survives op ↔ msg.HasRoom op := by
  refine ⟨?_, fun h => (afterCall_of_room hmsg h).2⟩
  intro hsurvives
  by_contra hroom
  -- the call throws, and what it has assigned is not what there was
  obtain ⟨x, hx⟩ := size_error_of_no_room hroom
  have hthrow := updateLength_error hx
  rw [← call_eq] at hthrow
  obtain ⟨hmetadata, -, hpayload, -⟩ := hsurvives.unchanged x _ hthrow
  cases op with
  | insertMetadata entry =>
    have hlonger := congrArg List.length hmetadata
    simp [assign] at hlonger
  | setPayload payload =>
    apply hroom
    have hsame : payload = msg.payload := hpayload
    show compactSize msg.metadata payload < 2 ^ 32
    rw [hsame]
    exact hmsg.size_fits

/-! ## Any number of calls -/

theorem Message.Constructed.built (h : msg.Constructed) : msg.Built := by
  cases h with
  | default => exact ⟨rfl, rfl, by decide⟩
  | new h => exact (new_built h).1

/-- **When a message stays in order.** After each of a number of calls on a new message it is in
    order, exactly if each call found room for what it brings. The two sides are statements about
    all calls, and the induction over them is that of `Along.iff_of_invariant`; what it needs is
    that a message which survives is one that the next call may start from. -/
theorem message_survives_calls_iff (hmsg : msg.Constructed) (ops : List MessageOp) :
    (∀ before op after, ops = before ++ op :: after → (msg.afterCalls before).Survives op) ↔
      ∀ before op after, ops = before ++ op :: after → (msg.afterCalls before).HasRoom op := by
  have hkeep (msg : Message) (op : MessageOp) (hbuilt : msg.Built) (h : msg.Survives op) :
      (msg.afterCall op).Built :=
    (afterCall_of_room hbuilt ((survives_iff_room hbuilt op).mp h)).1
  have hrun := Along.iff_of_invariant (fun _ op hbuilt => survives_iff_room hbuilt op) hkeep
    hmsg.built ops
  rw [along_iff, along_iff] at hrun
  exact hrun

/-- An entry and a payload on `Message()`. -/
theorem message_survives_two_calls :
    Survives {} (.insertMetadata (bytes "bob")) ∧
      (afterCall {} (.insertMetadata (bytes "bob"))).Survives (.setPayload (bytes "hi")) := by
  have hcalls := (message_survives_calls_iff .default
    [.insertMetadata (bytes "bob"), .setPayload (bytes "hi")]).mpr ?_
  · exact ⟨hcalls [] _ _ rfl, hcalls [.insertMetadata (bytes "bob")] _ _ rfl⟩
  · have hrooms : Along afterCall HasRoom {}
        [.insertMetadata (bytes "bob"), .setPayload (bytes "hi")] :=
      ⟨⟨by decide, by decide⟩, show compactSize _ _ < _ by decide, trivial⟩
    exact along_iff.mp hrooms

theorem afterCalls_concat (msg : Message) (ops : List MessageOp) (op : MessageOp) :
    msg.afterCalls (ops ++ [op]) = (msg.afterCalls ops).afterCall op := by
  unfold afterCalls
  rw [List.foldl_append]
  rfl

/-- Empty entries, as many as a byte can count. Used for the counterexample below, where 255 of them
    are too many for `decide`. -/
theorem afterCalls_empty_entries {n : Nat} (hn : n ≤ 255) :
    let msg := afterCalls {} (List.replicate n (.insertMetadata []))
    msg.Built ∧ msg.metadata = List.replicate n [] ∧ msg.payload = [] := by
  induction n with
  | zero => exact ⟨Constructed.default.built, rfl, rfl⟩
  | succ n ih =>
    obtain ⟨hbuilt, hmetadata, hpayload⟩ := ih (Nat.le_of_succ_le hn)
    intro msg
    have hmsg : msg = (afterCalls {} (List.replicate n (.insertMetadata []))).afterCall
        (.insertMetadata []) := by
      unfold msg
      rw [List.replicate_succ', afterCalls_concat]
    -- the message so far is only known by what the induction says of it
    generalize afterCalls {} (List.replicate n (.insertMetadata [])) = before
      at hmsg hbuilt hmetadata hpayload
    have hroom : before.HasRoom (.insertMetadata []) := by
      refine ⟨by rw [hmetadata, List.length_replicate]; omega, ?_⟩
      rw [hmetadata, hpayload, ← List.replicate_succ']
      unfold compactSize
      rw [List.map_replicate, List.sum_replicate]
      simp
      omega
    have hcall := call_of_room hbuilt hroom
    have hafter : msg = _ := hmsg.trans (finalState_ok hcall)
    refine ⟨hmsg ▸ (afterCall_of_room hbuilt hroom).1, ?_, ?_⟩
    · rw [hafter, List.replicate_succ', ← hmetadata]
      rfl
    · rw [hafter, ← hpayload]
      rfl

/-- The entry that is one too many stays, and the count starts again: the call has thrown, and the
    message is one that no later call can put right, as there is none that removes an entry. -/
theorem afterCall_overfull (hmsg : msg.Built) (hcount : msg.metadata.length = 255) (entry : Bytes) :
    ¬msg.Survives (.insertMetadata entry) ∧
      msg.afterCall (.insertMetadata entry)
        = { msg with metadata := msg.metadata ++ [entry], metalen := 0 } := by
  have hno : ¬msg.HasRoom (.insertMetadata entry) := by
    intro h
    have hroom := h.1
    omega
  obtain ⟨x, hx⟩ := size_error_of_no_room hno
  have hthrow := updateLength_error hx
  rw [← call_eq] at hthrow
  have hmetalen : UInt8.ofNat (msg.metadata ++ [entry]).length = 0 := by
    rw [List.length_append, hcount, List.length_singleton]
    decide
  refine ⟨fun h => hno ((survives_iff_room hmsg _).mp h), (finalState_error hthrow).trans ?_⟩
  unfold assign
  dsimp only
  rw [hmetalen]

/-- The 256th entry: the message is not valid any more, although the only call that could tell has
    said so by throwing. -/
theorem message_with_256_entries :
    let full := afterCalls {} (List.replicate 255 (.insertMetadata []))
    full.validate = true ∧ ¬full.Survives (.insertMetadata []) ∧
      full.afterCall (.insertMetadata [])
        = { full with metadata := full.metadata ++ [[]], metalen := 0 } ∧
      (full.afterCall (.insertMetadata [])).validate = false := by
  obtain ⟨hbuilt, hmetadata, -⟩ := afterCalls_empty_entries (Nat.le_refl 255)
  have hcount := congrArg List.length hmetadata
  rw [List.length_replicate] at hcount
  dsimp only at hbuilt hcount ⊢
  generalize afterCalls {} (List.replicate 255 (.insertMetadata [])) = full at hbuilt hcount ⊢
  obtain ⟨hfails, hafter⟩ := afterCall_overfull hbuilt hcount []
  refine ⟨hbuilt.validate, hfails, hafter, ?_⟩
  rw [hafter]
  simp [Message.validate]

end Messenger
