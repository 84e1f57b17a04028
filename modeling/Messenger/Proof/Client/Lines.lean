import Messenger.Proof.Client.Crypto
import Messenger.Proof.Client.Handling
import Messenger.Proof.Parser.Text
import Messenger.Proof.Server.Bytes
import Messenger.Proof.Server.Requests

/-!
# From a typed line to a call of the service

A line goes through the templates, becomes a command message, is run by the client's command
bus, goes over the wire as another command message and is run by the server's. The two
messages differ: the client's own has the last argument twice, as an entry and as the
payload, and what is sent depends on the command. `Request` is what the user means;
`Request.parsed` and `Request.sent` say what it is on the way, and each stage is one lemma.

The stages meet in contents, that is in what a message says, and never in bytes or in messages: the
parser's message is read by the client, the client's bytes by the server, and each reader gets a
message of its own that has the same content and another time. So a stage is a statement about any
message with the content that the stage before has produced.

A login is given the keys on the way, and a text for a room is put together from its words by the
template and made into a message once more by the server. These two kinds of requests are the ones
for which a case of their own is needed in every stage.
-/

set_option autoImplicit false

namespace Messenger

open Messenger.Lib

/-! ## Lines of words -/

/-- A line that begins with the verb of a command, with arguments that its template takes. The
    tokens of the line are its words, the verb selects the template, and the captures become the
    arguments. -/
theorem parse_unwords (now : UInt64) (cmd : ClientCommand) {args captures : List Bytes}
    (hargs : ∀ w ∈ args, IsWord w)
    (hmatch : CommandPatternMatcher.matchTokens cmd.captures args = some (captures, [])) :
    Parser.parse now (unwords (cmd.verb :: args))
      = Parser.makeCommandFromStruct now { name := cmd.name, args := captures } := by
  have hwords : ∀ w ∈ cmd.verb :: args, IsWord w := by
    intro w hw
    rcases List.mem_cons.mp hw with rfl | hw
    · exact verb_isWord cmd
    · exact hargs w hw
  have hline : unwords (cmd.verb :: args) = 0x2F :: unwords (cmd.name :: args) :=
    unwords_append_cons [0x2F] cmd.name args
  have hparsed : Parser.parseLine (unwords (cmd.verb :: args))
      = { name := cmd.name, args := captures } := by
    have htokens := CommandPatternMatcher.splitTokens_unwords (.of_words hwords)
    unfold Parser.parseLine
    rw [CommandPatternMatcher.match_of_verb cmd htokens hmatch, hline]
    rfl
  rw [← hparsed, hline]
  rfl

/-! ## What the user means -/

/-- What a user can ask the server for in one line. Private messages and files take more than one
    message and are treated elsewhere. -/
inductive Request
  | login (username : Bytes)
  | room (chatName : Bytes)
  | join (chatName : Bytes)
  | send (chatName : Bytes) (text : List Bytes)
  | getpub (username : Bytes)
  | exit
  deriving DecidableEq, Repr

namespace Request

/-- The command that is typed for it. -/
def command : Request → ClientCommand
  | .login _ => .login
  | .room _ => .room
  | .join _ => .join
  | .send _ _ => .send
  | .getpub _ => .getpub
  | .exit => .exit

/-- The words that the user chooses. -/
def args : Request → List Bytes
  | .login username => [username]
  | .room chatName => [chatName]
  | .join chatName => [chatName]
  | .send chatName text => chatName :: text
  | .getpub username => [username]
  | .exit => []

/-- The line that is typed. -/
def line (req : Request) : Bytes := unwords (req.command.verb :: req.args)

/-- A request that can be typed: the words have no white space in them and fit into entries, and the
    line is not absurdly long. -/
structure Typable (req : Request) : Prop where
  words : ∀ w ∈ req.args, IsWord w
  words_fit : ∀ w ∈ req.args, w.length ≤ 65535
  line_fits : req.line.length < 2 ^ 30

/-- What the templates make of the line. For a text to a room the words after the room become one
    argument again. -/
def parsed (req : Request) : ParsedCommand where
  name := req.command.name
  args := match req with
    | .send chatName text => [chatName, unwords text]
    | _ => req.args

end Request

/-- **The parser's stage.** Only `/send` has a template that takes any number of words. -/
theorem parse_line {req : Request} (h : req.Typable) (now : UInt64) :
    Parser.parse now req.line = Parser.makeCommandFromStruct now req.parsed := by
  apply parse_unwords now req.command h.words
  cases req with
  | send chatName text =>
    have htext : ∀ w ∈ text, IsWord w := fun w hw => h.words w (List.mem_cons_of_mem _ hw)
    have hmatch : CommandPatternMatcher.matchTokens ClientCommand.send.captures (chatName :: text)
        = some ([chatName, CommandPatternMatcher.joinTail text], []) := rfl
    rw [CommandPatternMatcher.joinTail_eq htext] at hmatch
    exact hmatch
  | _ => rfl

/-! ## What is sent -/

/-- What the server is sent for a request. It is not what was parsed: a login is given the keys, and
    for some commands the last argument is the payload as well. -/
def Request.sent (ssl : OpenSSL) (encryption : EncryptionService) : Request → Content
  | .login username => .plain .command [[CommandType.login.toByte], username,
      encryption.getDHBytes ssl, encryption.getIdentityBytes ssl, encryption.sign ssl]
      (encryption.sign ssl)
  | .room chatName => .plain .command [[CommandType.makeRoom.toByte], chatName] chatName
  | .join chatName => .plain .command [[CommandType.join.toByte], chatName] chatName
  | .send chatName text => .plain .command [[CommandType.send.toByte], chatName] (unwords text)
  | .getpub username => .plain .command [[CommandType.getPubkey.toByte], username] []
  | .exit => .plain .command [[CommandType.exit.toByte]] []

theorem unwords_length_le (word : Bytes) (words : List Bytes) :
    (unwords words).length ≤ (unwords (word :: words)).length := by
  cases words with
  | nil => simp [unwords]
  | cons next words =>
    rw [unwords_cons_cons, List.length_append, List.length_cons]
    omega

theorem Request.Typable.text_fits {chatName : Bytes} {text : List Bytes}
    (h : (Request.send chatName text).Typable) : (unwords text).length < 2 ^ 30 :=
  ((unwords_length_le _ _).trans (unwords_length_le _ _)).trans_lt h.line_fits

/-- What is sent fits into the compact format, for each kind of request. The keys have fixed
    lengths. -/
theorem Request.Typable.sent_fits {ssl : OpenSSL} (hssl : ssl.Correct) {req : Request}
    (h : req.Typable) (encryption : EncryptionService) : (req.sent ssl encryption).FitsCompact := by
  have hfit := h.words_fit
  cases req with
  | login username =>
    have hdh : (encryption.getDHBytes ssl).length = 32 := hssl.dh_length _
    have hed : (encryption.getIdentityBytes ssl).length = 32 := hssl.ed_length _
    have hsig : (encryption.sign ssl).length = 64 := hssl.signature_length _ _
    exact Content.plain_fits (by decide) (by simp)
      (by simpa [hdh, hed, hsig, Request.args] using hfit) (by simp [hsig])
  | room chatName =>
    have hname : chatName.length ≤ 65535 := hfit chatName List.mem_cons_self
    exact Content.plain_fits (by decide) (by simp) (by simpa using hname) (by omega)
  | join chatName =>
    have hname : chatName.length ≤ 65535 := hfit chatName List.mem_cons_self
    exact Content.plain_fits (by decide) (by simp) (by simpa using hname) (by omega)
  | send chatName text =>
    have hname : chatName.length ≤ 65535 := hfit chatName List.mem_cons_self
    have htext := h.text_fits
    exact Content.plain_fits (by decide) (by simp) (by simpa using hname) (by omega)
  | getpub username =>
    have hname : username.length ≤ 65535 := hfit username List.mem_cons_self
    exact Content.plain_fits (by decide) (by simp) (by simpa using hname) (by simp)
  | exit => exact Content.plain_fits (by decide) (by simp) (by simp) (by simp)

/-! ## The client's stage -/

variable {ssl : OpenSSL} {c : ClientContext} {req : Request}

theorem Request.Typable.parsed_fits (h : req.Typable) :
    compactSize req.parsed.content.metadata req.parsed.content.payload < 2 ^ 32 := by
  have hfit := h.words_fit
  cases req with
  | send chatName text =>
    have hname : chatName.length ≤ 65535 := hfit chatName List.mem_cons_self
    have htext := h.text_fits
    simp [Request.parsed, ParsedCommand.content, Content.plain, compactSize]
    omega
  | exit => decide
  | _ word =>
    have hname : word.length ≤ 65535 := hfit word List.mem_cons_self
    simp [Request.parsed, Request.args, ParsedCommand.content, Content.plain, compactSize]
    omega

/-- The message that the templates have made is handed to the command's own handler. -/
theorem clientCommand_of_parsed {msg : Message} (hmsg : msg.content = req.parsed.content) :
    msg.clientCommand = some req.command := by
  obtain ⟨-, hmeta, -⟩ := Message.of_content hmsg
  unfold Message.clientCommand
  rw [hmeta 0]
  cases req <;> rfl

/-- Running `x` sends one message, with this content. -/
def Sends (x : ClientM Unit) (c : ClientContext) (content : Content) : Prop :=
  ∃ sent : Message, sent.Built ∧ sent.content = content ∧
    (finalState x c).outgoing = (c.afterSend (Serializer.serialize sent)).outgoing

theorem Sends.command (cmd : ParsedCommand) (hcount : cmd.args.length < 255)
    (hsize : compactSize cmd.content.metadata cmd.content.payload < 2 ^ 32) (c : ClientContext) :
    Sends (sendCommand cmd) c cmd.content := by
  obtain ⟨sent, hsend, hcontent, hbuilt⟩ := sendCommand_eq hcount hsize c
  refine ⟨sent, hbuilt, hcontent, ?_⟩
  rw [finalState_congr hsend, finalState_sendToServer]

theorem Sends.message (payload : Bytes) (metalen : UInt8) (metadata : List Bytes)
    (type : MessageType) (hcount : metadata.length < 256)
    (hsize : compactSize metadata payload < 2 ^ 32) (c : ClientContext) :
    Sends (sendMessage payload metalen metadata type) c (.plain type metadata payload) := by
  obtain ⟨sent, hsend, hcontent, hbuilt⟩ := sendMessage_eq metalen type hcount hsize c
  refine ⟨sent, hbuilt, hcontent, ?_⟩
  rw [finalState_congr hsend, finalState_sendToServer]

theorem Sends.congr {x y : ClientM Unit} {c c' : ClientContext} {content : Content}
    (h : Sends x c content) (hconnected : c'.connected = c.connected)
    (houtgoing : c'.outgoing = c.outgoing)
    (hrun : (finalState y c').outgoing = (finalState x c).outgoing) : Sends y c' content := by
  obtain ⟨sent, hbuilt, hcontent, hsent⟩ := h
  refine ⟨sent, hbuilt, hcontent, ?_⟩
  rw [hrun, hsent, afterSend_outgoing, afterSend_outgoing, hconnected, houtgoing]

/-- **The client's stage**: running the command sends one message. The arguments are read back from
    the message that the parser has made. -/
theorem execute_sends (hssl : ssl.Correct) (h : req.Typable) {msg : Message}
    (hmsg : msg.content = req.parsed.content) (c : ClientContext) :
    Sends (req.command.execute ssl msg) c (req.sent ssl c.encryption) := by
  obtain ⟨-, hmeta, hpayload⟩ := Message.of_content hmsg
  have hsize := (h.sent_fits hssl c.encryption).size_fits
  cases req with
  | login username =>
    have hsends := Sends.command { name := bytes "login", args := [username,
      c.encryption.getDHBytes ssl, c.encryption.getIdentityBytes ssl, c.encryption.sign ssl] }
      (by simp) hsize { c with myUsername := username }
    refine hsends.congr rfl rfl ?_
    rw [Request.command, ClientCommand.execute, hmeta 1]
    rfl
  | room chatName =>
    rw [Request.command, ClientCommand.execute, hmeta 1]
    exact .command { name := bytes "room", args := [chatName] } (by simp) hsize c
  | join chatName =>
    rw [Request.command, ClientCommand.execute, hmeta 1]
    exact .command { name := bytes "join", args := [chatName] } (by simp) hsize c
  | send chatName text =>
    rw [Request.command, ClientCommand.execute, hmeta 1, hpayload]
    exact .message (unwords text) 2 [[CommandType.send.toByte], chatName] .command (by simp) hsize c
  | getpub username =>
    rw [Request.command, ClientCommand.execute, hmeta 1]
    exact .message [] 2 [[CommandType.getPubkey.toByte], username] .command (by simp) hsize c
  | exit =>
    obtain ⟨sent, hfinal, hcontent, hbuilt⟩ := exit_finalState c
    refine ⟨sent, hbuilt, hcontent, ?_⟩
    rw [Request.command, ClientCommand.execute, hfinal]

/-- From the line to what goes out. Without a connection nothing does. -/
theorem typed_sends (hssl : ssl.Correct) (h : req.Typable) (c : ClientContext) (now : UInt64) :
    ∃ sent : Message, sent.Built ∧ sent.content = req.sent ssl c.encryption ∧
      (c.step ssl (.typed now req.line)).outgoing =
        if c.connected then c.outgoing ++ [Serializer.serialize sent] else c.outgoing := by
  have hcount : req.parsed.args.length < 255 := by
    cases req <;> simp [Request.parsed, Request.args]
  obtain ⟨msg, hmsg, -, hcontent⟩ := makeCommandFromStruct_ok now hcount h.parsed_fits
  have hparse : Parser.parse now req.line = .ok msg := (parse_line h now).trans hmsg
  have hhandler : ClientMessageDispatcher.handler ssl msg.getType
      = some (ClientCommandBus.dispatch ssl) := by
    rw [(Message.of_content hcontent).1]
    rfl
  obtain ⟨sent, hbuilt, hsent, houtgoing⟩ := execute_sends hssl h hcontent { c with now := now }
  refine ⟨sent, hbuilt, hsent, ?_⟩
  have hstep : c.step ssl (.typed now req.line)
      = finalState (req.command.execute ssl msg) { c with now := now } := by
    refine (getData_ok (c := { c with now := now }) hparse).trans ?_
    rw [clientDispatch_of_handler hhandler,
      clientBusDispatch_of_command (clientCommand_of_parsed hcontent)]
  rw [hstep, houtgoing, afterSend_outgoing]

/-! ## The server's stage -/

/-- A call of an operation of `ServerApplicationService`. -/
inductive ServiceCall
  | login (username dhPubkey identityPub signature : Bytes)
  | createRoom (chatName : Bytes)
  | joinRoom (chatName : Bytes)
  | sendGroupMessage (chatName : Bytes) (message : Message)
  | sendPubkey (username : Bytes)
  | exitCurrentSession
  deriving DecidableEq, Repr

def ServiceCall.run : ServiceCall → ServerM Unit
  | .login username dhPubkey identityPub signature =>
    ServerApplicationService.login username dhPubkey identityPub signature
  | .createRoom chatName => ServerApplicationService.createRoom chatName
  | .joinRoom chatName => ServerApplicationService.joinRoom chatName
  | .sendGroupMessage chatName message => ServerApplicationService.sendGroupMessage chatName message
  | .sendPubkey username => ServerApplicationService.sendPubkey username
  | .exitCurrentSession => ServerApplicationService.exitCurrentSession

/-- The call that a request is for, of a client with these keys. The message in a call for a room is
    made by the server, so only its content is given. -/
inductive Request.Calls (ssl : OpenSSL) (encryption : EncryptionService) :
    Request → ServiceCall → Prop
  | login (username : Bytes) : Calls ssl encryption (.login username)
      (.login username (encryption.getDHBytes ssl) (encryption.getIdentityBytes ssl)
        (encryption.sign ssl))
  | room (chatName : Bytes) : Calls ssl encryption (.room chatName) (.createRoom chatName)
  | join (chatName : Bytes) : Calls ssl encryption (.join chatName) (.joinRoom chatName)
  | send (chatName : Bytes) (text : List Bytes) (message : Message)
      (hmessage : message.content = .plain .text [] (unwords text)) :
      Calls ssl encryption (.send chatName text) (.sendGroupMessage chatName message)
  | getpub (username : Bytes) : Calls ssl encryption (.getpub username) (.sendPubkey username)
  | exit : Calls ssl encryption .exit .exitCurrentSession

/-- **The server's stage.** The code leads to the handler, and the arguments are the entries. A text
    to a room is made into a message once more, which works because it came in a larger one. -/
theorem dispatch_calls (h : req.Typable) {encryption : EncryptionService} {msg : Message}
    (hmsg : msg.content = req.sent ssl encryption) (s : ServerContext) :
    ∃ call, req.Calls ssl encryption call ∧ ServerCommandBus.dispatch msg s = call.run s := by
  cases req with
  | login username =>
    obtain ⟨htype, hmeta, -⟩ := Message.of_content hmsg
    have hcommand : msg.IsCommand .login := ⟨htype, congrArg List.head? (hmeta 0)⟩
    refine ⟨_, .login username, ?_⟩
    rw [hcommand.dispatch .login rfl, ServerCommand.execute, hmeta 1, hmeta 2, hmeta 3, hmeta 4]
    rfl
  | room chatName =>
    obtain ⟨htype, hmeta, -⟩ := Message.of_content hmsg
    have hcommand : msg.IsCommand .makeRoom := ⟨htype, congrArg List.head? (hmeta 0)⟩
    refine ⟨_, .room chatName, ?_⟩
    rw [hcommand.dispatch .room rfl, ServerCommand.execute, hmeta 1]
    rfl
  | join chatName =>
    obtain ⟨htype, hmeta, -⟩ := Message.of_content hmsg
    have hcommand : msg.IsCommand .join := ⟨htype, congrArg List.head? (hmeta 0)⟩
    refine ⟨_, .join chatName, ?_⟩
    rw [hcommand.dispatch .join rfl, ServerCommand.execute, hmeta 1]
    rfl
  | send chatName text =>
    obtain ⟨htype, hmeta, hpayload⟩ := Message.of_content hmsg
    have hcommand : msg.IsCommand .send := ⟨htype, congrArg List.head? (hmeta 0)⟩
    have hsize : compactSize [] (unwords text) < 2 ^ 32 := by
      have htext := h.text_fits
      simp [compactSize]
      omega
    -- the one call with an argument that is not an entry of the message
    obtain ⟨message, hconstruct, hmessage⟩ := construct_ok 0 .text s (by simp) hsize
    refine ⟨_, .send chatName text message hmessage, ?_⟩
    rw [hcommand.dispatch .send rfl, ServerCommand.execute, hmeta 1, hpayload]
    exact bind_ok hconstruct
  | getpub username =>
    obtain ⟨htype, hmeta, -⟩ := Message.of_content hmsg
    have hcommand : msg.IsCommand .getPubkey := ⟨htype, congrArg List.head? (hmeta 0)⟩
    refine ⟨_, .getpub username, ?_⟩
    rw [hcommand.dispatch .getpub rfl, ServerCommand.execute, hmeta 1]
    rfl
  | exit =>
    obtain ⟨htype, hmeta, -⟩ := Message.of_content hmsg
    have hcommand : msg.IsCommand .exit := ⟨htype, congrArg List.head? (hmeta 0)⟩
    refine ⟨_, .exit, ?_⟩
    rw [hcommand.dispatch .exit rfl]
    rfl

/-- **What the user types is what the server executes.** A line sends one message (if there is
    a connection), and the server makes one call of it. -/
theorem typed_line_executed (hssl : ssl.Correct) (req : Request) (h : req.Typable)
    (c : ClientContext) (now : UInt64) :
    ∃ raw msg,
      (c.step ssl (.typed now req.line)).outgoing
        = (if c.connected then c.outgoing ++ [raw] else c.outgoing) ∧
      Serializer.deserialize raw = .ok msg ∧
      ∀ (s : ServerContext) (fd : Fd), ∃ call, req.Calls ssl c.encryption call ∧
        ServerCommandBus.dispatch msg { s with fd := fd } = call.run { s with fd := fd } ∧
        finalState (MessagingServer.onTcpDataReceived fd raw) s
          = finalState call.run { s with fd := fd } := by
  obtain ⟨sent, hbuilt, hcontent, houtgoing⟩ := typed_sends hssl h c now
  have hfits : sent.content.FitsCompact := hcontent ▸ h.sent_fits hssl c.encryption
  obtain ⟨msg, hmsg, hmsgContent⟩ := (hbuilt.fitsWire hfits).carries
  rw [hcontent] at hmsgContent
  refine ⟨Serializer.serialize sent, msg, houtgoing, hmsg, ?_⟩
  intro s fd
  obtain ⟨call, hcall, hdispatch⟩ := dispatch_calls h hmsgContent { s with fd := fd }
  have htype : msg.getType = .command := by
    refine (congrArg Content.type hmsgContent).trans ?_
    cases req <;> rfl
  refine ⟨call, hcall, hdispatch, ?_⟩
  calc finalState (MessagingServer.onTcpDataReceived fd (Serializer.serialize sent)) s
      = s.step (.message s.now fd msg) := finalState_congr (onTcpDataReceived_ok hmsg fd s)
    _ = finalState (ServerCommandBus.dispatch msg) { s with fd := fd } :=
        step_command htype s s.now fd
    _ = finalState call.run { s with fd := fd } := finalState_congr hdispatch

theorem typed_send_executed :
    let c : ClientContext :=
      { encryption := { dhKey := [1], identityKey := [2], entropy := fun _ => none } }
    ∃ raw msg,
      (c.step clearSSL (.typed 1 (bytes "/send den hi there"))).outgoing = [raw] ∧
      Serializer.deserialize raw = .ok msg ∧
      ∀ (s : ServerContext) (fd : Fd), ∃ call,
        Request.Calls clearSSL c.encryption (.send (bytes "den") [bytes "hi", bytes "there"]) call ∧
        ServerCommandBus.dispatch msg { s with fd := fd } = call.run { s with fd := fd } ∧
        finalState (MessagingServer.onTcpDataReceived fd raw) s
          = finalState call.run { s with fd := fd } := by
  intro c
  have hline : (Request.send (bytes "den") [bytes "hi", bytes "there"]).line
      = bytes "/send den hi there" := by decide
  rw [← hline]
  exact typed_line_executed clearSSL_correct _ ⟨by decide, by decide, by decide⟩ c 1

end Messenger
