import Messenger.Model.Command
import Messenger.Proof.Wire.Encode

/-!
# Commands as messages

`make_command_from_struct` puts a command together with the mutators of `Message`, one
metadata entry at a time, and each of them checks the size. For a command that fits when
it is complete none of the checks fails, and the message is one that arrives.

That the checks on the way pass is not for free: a mutator is called on a message that is not
complete, and checks the size it has then. The sizes only grow, so the last check is the strictest
(`compactSize_mono`), and with it the induction over the arguments has one assumption for all of
them.

The converse is needed where a command has become a message and nothing else is known about it:
then its size was in bounds, and the message says the command.
-/

set_option autoImplicit false

namespace Messenger

open Messenger.Lib

/-- A message with fewer entries and no payload is smaller, so the checks that come before the last
    one pass if the last one does. -/
theorem compactSize_mono {metadata extra : List Bytes} {payload : Bytes} {n : Nat}
    (h : compactSize (metadata ++ extra) payload < n) : compactSize metadata [] < n := by
  unfold compactSize at h ⊢
  rw [List.map_append, List.sum_append] at h
  rw [List.length_nil]
  omega

/-- A message without a payload, to which an entry is added. The check is made with the entry in it,
    and the count has to stay in its byte. -/
theorem insertMetadata_ok {m : Message} (hm : m.useExtendedFormat = false)
    (hpayload : m.payload = [])
    (entry : Bytes) (hcount : m.metadata.length < 255)
    (hsize : compactSize (m.metadata ++ [entry]) [] < 2 ^ 32) :
    ∃ m', m.insertMetadata entry = .ok m' ∧ m'.Built ∧ m'.payload = [] ∧
      m'.metadata = m.metadata ++ [entry] ∧ m'.header.type = m.header.type := by
  have hlength : (m.metadata ++ [entry]).length < 256 := by
    rw [List.length_append, List.length_singleton]
    omega
  have hmetalen := toNat_ofNat8 hlength
  unfold Message.insertMetadata
  rw [hpayload]
  simp only [computeSerializedSize_ok hmetalen hsize]
  refine ⟨_, rfl, ⟨?_, hmetalen, hsize⟩, rfl, rfl, rfl⟩
  exact useExtendedFormat_eq_false.mpr (useExtendedFormat_eq_false.mp hm)

/-- All arguments, one call for each. By induction on them; what is asked for is that there is room
    for all, and `compactSize_mono` gives it for those so far. -/
theorem insertAll_ok {args : List Bytes} {m : Message} (hm : m.Built) (hpayload : m.payload = [])
    (hcount : (m.metadata ++ args).length < 256)
    (hsize : compactSize (m.metadata ++ args) [] < 2 ^ 32) :
    ∃ m', args.foldlM Message.insertMetadata m = .ok m' ∧ m'.Built ∧ m'.payload = [] ∧
      m'.metadata = m.metadata ++ args ∧ m'.header.type = m.header.type := by
  induction args generalizing m with
  | nil => exact ⟨m, rfl, hm, hpayload, (List.append_nil _).symm, rfl⟩
  | cons arg args ih =>
    have hsplit : m.metadata ++ arg :: args = (m.metadata ++ [arg]) ++ args := by simp
    rw [hsplit] at hcount hsize
    have hroom : m.metadata.length < 255 := by
      simp only [List.length_append, List.length_singleton] at hcount
      omega
    obtain ⟨m₁, hinsert, hm₁, hpayload₁, hmetadata₁, htype₁⟩ :=
      insertMetadata_ok hm.compact hpayload arg hroom (compactSize_mono hsize)
    rw [← hmetadata₁] at hcount hsize
    obtain ⟨m₂, hrest, hm₂, hpayload₂, hmetadata₂, htype₂⟩ := ih hm₁ hpayload₁ hcount hsize
    refine ⟨m₂, ?_, hm₂, hpayload₂, ?_, htype₂.trans htype₁⟩
    · rw [List.foldlM_cons, hinsert, ok_bind]
      exact hrest
    · rw [hmetadata₂, hmetadata₁, hsplit]

/-- The payload comes last, with all the entries in place: this is the check that decides. -/
theorem setPayload_ok {m : Message} (hm : m.Built) {payload : Bytes}
    (hsize : compactSize m.metadata payload < 2 ^ 32) :
    ∃ m', m.setPayload payload = .ok m' ∧ m'.Built ∧ m'.payload = payload ∧
      m'.metadata = m.metadata ∧ m'.header.type = m.header.type := by
  unfold Message.setPayload
  simp only [computeSerializedSize_ok hm.metalen_eq hsize]
  refine ⟨_, rfl, ⟨?_, hm.metalen_eq, hsize⟩, rfl, rfl, rfl⟩
  exact useExtendedFormat_eq_false.mpr (useExtendedFormat_eq_false.mp hm.compact)

/-- What a command says as a message. The last argument is the payload too, so it travels twice; a
    command without arguments has an empty payload. -/
def ParsedCommand.content (cmd : ParsedCommand) : Content :=
  .plain .command ([((commandTypesMap cmd.name).getD .unknown).toByte] :: cmd.args)
    (cmd.args.getLast?.getD [])

/-- A message that was built says no more than its type, its entries and its payload. -/
theorem Message.Built.content_eq {m : Message} (hm : m.Built) :
    m.content = .plain m.header.type m.metadata m.payload := by
  obtain ⟨henvelope, hversion⟩ := useExtendedFormat_eq_false.mp hm.compact
  unfold Message.content Content.plain
  rw [henvelope, hversion]

/-- The message before its first entry, of which only the type and the time are set. -/
def blankCommand (now : UInt64) : Message :=
  { header := { type := .command, protocolVersion := 1, timestamp := now } }

/-- The calls of `make_command_from_struct`: the code, the arguments, the payload. -/
theorem makeCommandFromStruct_eq (now : UInt64) (cmd : ParsedCommand) :
    Parser.makeCommandFromStruct now cmd
      = (blankCommand now).insertMetadata [((commandTypesMap cmd.name).getD .unknown).toByte]
        >>= fun msg => cmd.args.foldlM Message.insertMetadata msg
        >>= fun msg => msg.setPayload (cmd.args.getLast?.getD []) :=
  rfl

/-- **A command that fits becomes a message that says it.** The three lemmas above in a row, for the
    code of the command, its arguments and the payload. -/
theorem makeCommandFromStruct_ok (now : UInt64) {cmd : ParsedCommand}
    (hcount : cmd.args.length < 255)
    (hsize : compactSize cmd.content.metadata cmd.content.payload < 2 ^ 32) :
    ∃ m, Parser.makeCommandFromStruct now cmd = .ok m ∧ m.Built ∧ m.content = cmd.content := by
  let code := [((commandTypesMap cmd.name).getD .unknown).toByte]
  have hmetadata : cmd.content.metadata = [code] ++ cmd.args := rfl
  rw [hmetadata] at hsize
  obtain ⟨m₁, hcode, hm₁, hpayload₁, hmetadata₁, htype₁⟩ :=
    insertMetadata_ok (m := blankCommand now) rfl rfl code (Nat.zero_lt_succ _)
      (compactSize_mono hsize)
  have hcount₁ : (m₁.metadata ++ cmd.args).length < 256 := by
    rw [hmetadata₁]
    simp [blankCommand]
    omega
  have hsize₁ : compactSize (m₁.metadata ++ cmd.args) cmd.content.payload < 2 ^ 32 := by
    rw [hmetadata₁]
    exact hsize
  have hroom : compactSize ((m₁.metadata ++ cmd.args) ++ []) cmd.content.payload < 2 ^ 32 := by
    rw [List.append_nil]
    exact hsize₁
  obtain ⟨m₂, hargs, hm₂, -, hmetadata₂, htype₂⟩ :=
    insertAll_ok hm₁ hpayload₁ hcount₁ (compactSize_mono hroom)
  rw [← hmetadata₂] at hsize₁
  obtain ⟨m₃, hlast, hm₃, hpayload₃, hmetadata₃, htype₃⟩ := setPayload_ok hm₂ hsize₁
  refine ⟨m₃, ?_, hm₃, ?_⟩
  · rw [makeCommandFromStruct_eq, hcode, ok_bind, hargs, ok_bind]
    exact hlast
  · rw [hm₃.content_eq, hpayload₃, hmetadata₃, hmetadata₂, hmetadata₁, htype₃, htype₂, htype₁]
    rfl

/-- The way back: the arguments are there, and the name if its code is known. A code that is not
    known, as that of `UNKNOWN`, gives the name `unknown`. -/
theorem makeStructFromCommand_eq {m : Message} {cmd : ParsedCommand}
    (h : m.metadata = cmd.content.metadata) :
    Parser.makeStructFromCommand m =
      { name := (commandNamesMap (.ofByte ((commandTypesMap cmd.name).getD .unknown).toByte)).getD
          (bytes "unknown"),
        args := cmd.args } := by
  unfold Parser.makeStructFromCommand Message.getMeta
  rw [h]
  rfl

/-! What a command that has become a message says about itself. -/

theorem insertMetadata_inv {m m' : Message} {entry : Bytes} (h : m.insertMetadata entry = .ok m') :
    m'.metadata = m.metadata ++ [entry] ∧ m'.getType = m.getType := by
  obtain ⟨length, -, hm'⟩ := bind_ok_inv h
  cases hm'
  exact ⟨rfl, rfl⟩

theorem insertAll_inv {args : List Bytes} {m m' : Message}
    (h : args.foldlM Message.insertMetadata m = .ok m') :
    m'.metadata = m.metadata ++ args ∧ m'.getType = m.getType := by
  induction args generalizing m with
  | nil =>
    cases h
    exact ⟨(List.append_nil _).symm, rfl⟩
  | cons arg args ih =>
    rw [List.foldlM_cons] at h
    obtain ⟨m₁, hinsert, hrest⟩ := bind_ok_inv h
    obtain ⟨hmetadata₁, htype₁⟩ := insertMetadata_inv hinsert
    obtain ⟨hmetadata, htype⟩ := ih hrest
    refine ⟨?_, htype.trans htype₁⟩
    rw [hmetadata, hmetadata₁, List.append_assoc]
    rfl

theorem setPayload_inv {m m' : Message} {payload : Bytes} (h : m.setPayload payload = .ok m') :
    m'.metadata = m.metadata ∧ m'.payload = payload ∧ compactSize m.metadata payload < 2 ^ 32 ∧
      m'.getType = m.getType := by
  obtain ⟨length, hsize, hm'⟩ := bind_ok_inv h
  cases hm'
  exact ⟨rfl, rfl, (computeSerializedSize_inv hsize).2, rfl⟩

/-- What a command that has become a message says, and that it fitted: the converse of
    `makeCommandFromStruct_ok`. The type is `COMMAND` from the start, and no call changes it. -/
theorem makeCommandFromStruct_inv {now : UInt64} {cmd : ParsedCommand} {m : Message}
    (h : Parser.makeCommandFromStruct now cmd = .ok m) :
    m.metadata = cmd.content.metadata ∧ m.payload = cmd.content.payload ∧
      compactSize cmd.content.metadata cmd.content.payload < 2 ^ 32 ∧ m.getType = .command := by
  rw [makeCommandFromStruct_eq] at h
  obtain ⟨m₁, hcode, h⟩ := bind_ok_inv h
  obtain ⟨m₂, hargs, h⟩ := bind_ok_inv h
  obtain ⟨hmetadata₁, htype₁⟩ := insertMetadata_inv hcode
  obtain ⟨hmetadata₂, htype₂⟩ := insertAll_inv hargs
  obtain ⟨hmetadata, hpayload, hsize, htype⟩ := setPayload_inv h
  rw [hmetadata₂, hmetadata₁] at hmetadata hsize
  exact ⟨hmetadata, hpayload, hsize, htype.trans (htype₂.trans htype₁)⟩

/-! Building a command fails only by throwing. -/

/-- A call fails by throwing, and so do all that are made of such calls. This is what lets the
    handlers of the client catch it. -/
theorem insertMetadata_isThrown {m : Message} {entry : Bytes} {x : Failure}
    (h : m.insertMetadata entry = .error x) : x.IsThrown := by
  rcases bind_error_inv h with hsize | ⟨length, -, hm'⟩
  · exact computeSerializedSize_isThrown hsize
  · cases hm'

theorem setPayload_isThrown {m : Message} {payload : Bytes} {x : Failure}
    (h : m.setPayload payload = .error x) : x.IsThrown := by
  rcases bind_error_inv h with hsize | ⟨length, -, hm'⟩
  · exact computeSerializedSize_isThrown hsize
  · cases hm'

theorem insertAll_isThrown {args : List Bytes} {m : Message} {x : Failure}
    (h : args.foldlM Message.insertMetadata m = .error x) : x.IsThrown := by
  induction args generalizing m with
  | nil => cases h
  | cons arg args ih =>
    rw [List.foldlM_cons] at h
    rcases bind_error_inv h with hinsert | ⟨m₁, -, hrest⟩
    · exact insertMetadata_isThrown hinsert
    · exact ih hrest

theorem makeCommandFromStruct_isThrown {now : UInt64} {cmd : ParsedCommand} {x : Failure}
    (h : Parser.makeCommandFromStruct now cmd = .error x) : x.IsThrown := by
  rw [makeCommandFromStruct_eq] at h
  rcases bind_error_inv h with hcode | ⟨m₁, -, h⟩
  · exact insertMetadata_isThrown hcode
  · rcases bind_error_inv h with hargs | ⟨m₂, -, hlast⟩
    · exact insertAll_isThrown hargs
    · exact setPayload_isThrown hlast

end Messenger
