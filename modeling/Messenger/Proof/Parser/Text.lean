import Messenger.Model.Client
import Messenger.Proof.Parser.Catalog
import Messenger.Proof.Wire.Command

/-!
# The text of a message

`/send` and `/pmess` have a target and a text. If the line keeps to spaces the text is what
the template captures: its runs of spaces are reduced and nothing else is changed
(`text_of_line`). A tab is no space for the template. Before the target it makes the template
fail, and the words that are found instead are arguments one by one, of which only the last
is the text; after the target it makes the target longer (`words_kept_iff`).

The two ways to read a line are in two sections. The first byte after the verb decides between
them. With a space the verb is a token, the template matches, and the proof is about what it
captures: `capture_of_tab` shows that a tab gets into the target, by following the tokenizer to the
first tab. With a tab the first token is longer than any verb, so no template matches and the
stream reads the line. It cuts at six kinds of white space where the user thinks of two, and this
is the hard direction of `words_kept_iff`: from the arguments being right it has to be seen that
the target had no other white space in it (`plain_of_kept`).
-/

set_option autoImplicit false

namespace Messenger

open Messenger.Lib

/-! ## The commands of a client -/

/-- The names that `registerCommand` is called with in `ClientCommandHandler`, one for each
    handler. -/
def ClientCommand.name : ClientCommand → Bytes
  | .exit => bytes "exit"
  | .login => bytes "login"
  | .room => bytes "room"
  | .send => bytes "send"
  | .join => bytes "join"
  | .getpub => bytes "getpub"
  | .pmess => bytes "pmess"
  | .help => bytes "help"
  | .sendfile => bytes "sendfile"

/-- What is typed for a command, before its arguments. -/
def ClientCommand.verb (cmd : ClientCommand) : Bytes := 0x2F :: cmd.name

/-- The captures of the template of a command. The name of a tail keeps one of its dots:
    `compile_pattern` takes off the braces and two of the three. -/
def ClientCommand.captures : ClientCommand → List PatternToken
  | .exit => []
  | .login => [⟨.capture, bytes "username"⟩]
  | .room => [⟨.capture, bytes "name"⟩]
  | .send => [⟨.capture, bytes "chat"⟩, ⟨.tailCapture, bytes "message."⟩]
  | .join => [⟨.capture, bytes "name"⟩]
  | .getpub => [⟨.capture, bytes "username"⟩]
  | .pmess => [⟨.capture, bytes "recipient"⟩, ⟨.tailCapture, bytes "message."⟩]
  | .help => []
  | .sendfile => [⟨.capture, bytes "recipient"⟩, ⟨.capture, bytes "filename"⟩]

/-- A verb is typed without a space in it, so it is one token. -/
theorem verb_isWord (cmd : ClientCommand) : IsWord cmd.verb := by
  refine ⟨List.cons_ne_nil _ _, ?_⟩
  cases cmd <;> decide

theorem catalog_of_verb (cmd : ClientCommand) :
    ∃ pattern ∈ defaultCommandCatalog, pattern.commandName = cmd.name ∧
      pattern.tokens = ⟨.literal, cmd.verb⟩ :: cmd.captures := by
  cases cmd <;> decide +kernel

/-- A line with the verb of a command is matched against the template of that command. The other
    templates need not be looked at, by `match_eq_some_iff`. -/
theorem CommandPatternMatcher.match_of_verb (cmd : ClientCommand) {line : Bytes}
    {input captures : List Bytes} (hline : splitTokens line = cmd.verb :: input)
    (h : matchTokens cmd.captures input = some (captures, [])) :
    match_ defaultCommandCatalog line = some { commandName := cmd.name, captures := captures } := by
  obtain ⟨pattern, hpattern, hname, htokens⟩ := catalog_of_verb cmd
  rw [match_eq_some_iff (List.Perm.refl _)]
  refine ⟨pattern, hpattern, tryMatch_eq_some_iff.mpr ⟨?_, hname⟩⟩
  rw [hline, htokens, matchTokens_literal, if_neg (not_not.mpr rfl)]
  exact h

/-! ## Commands with a text -/

/-- The two commands that take a target and a text. -/
def ClientCommand.HasText (cmd : ClientCommand) : Prop := cmd = .send ∨ cmd = .pmess

variable {cmd : ClientCommand}

/-- Either template is a capture followed by a tail: the first token is the target, whatever it is,
    and the rest is joined. -/
theorem ClientCommand.HasText.captures (h : cmd.HasText) (word : Bytes) (rest : List Bytes) :
    CommandPatternMatcher.matchTokens cmd.captures (word :: rest)
      = some ([word, CommandPatternMatcher.joinTail rest], []) := by
  rcases h with rfl | rfl
  · cases rest <;> rfl
  · cases rest <;> rfl

/-- A line of such a command with at least one more token. Without it the template fails, as a
    capture wants a token, and the line is taken apart by the stream. -/
theorem parse_of_tokens (now : UInt64) (h : cmd.HasText) {more word : Bytes} {rest : List Bytes}
    (hline : CommandPatternMatcher.splitTokens (cmd.verb ++ more) = cmd.verb :: word :: rest) :
    Parser.parse now (cmd.verb ++ more) = Parser.makeCommandFromStruct now
      { name := cmd.name, args := [word, CommandPatternMatcher.joinTail rest] } := by
  have hmatch := CommandPatternMatcher.match_of_verb cmd hline (h.captures word rest)
  have hparsed : Parser.parseLine (cmd.verb ++ more)
      = { name := cmd.name, args := [word, CommandPatternMatcher.joinTail rest] } := by
    unfold Parser.parseLine
    rw [hmatch]
    rfl
  rw [← hparsed]
  rfl

/-- A target and a text take 13 bytes more than the target and twice the text, since the text is the
    last argument and so the payload too. -/
theorem compactSize_text (name target text : Bytes) :
    compactSize (ParsedCommand.content ⟨name, [target, text]⟩).metadata
        (ParsedCommand.content ⟨name, [target, text]⟩).payload
      = 13 + target.length + 2 * text.length := by
  simp [compactSize, ParsedCommand.content, Content.plain]
  omega

theorem commandNames_of_hasText (h : cmd.HasText) :
    commandNamesMap (.ofByte ((commandTypesMap cmd.name).getD .unknown).toByte)
      = some cmd.name := by
  rcases h with rfl | rfl <;> decide +kernel

/-- **The text of a message**: spaces at its start are left out, a run of spaces becomes one, and
    nothing else is changed. Tabs and line breaks are kept as they are, since `split_tokens` does
    not cut at them. -/
theorem text_of_line (now : UInt64) (hcmd : cmd.HasText) {target : Bytes} (htarget : IsWord target)
    (text : Bytes) (hlength : (cmd.verb ++ space :: (target ++ space :: text)).length < 2 ^ 30) :
    ∃ msg, Parser.parse now (cmd.verb ++ space :: (target ++ space :: text)) = .ok msg ∧
      msg.getType = .command ∧
      Parser.makeStructFromCommand msg
        = { name := cmd.name, args := [target, collapseSpaces text] } ∧
      msg.getPayload = collapseSpaces text ∧
      (msg.getPayload = text ↔
        text.head? ≠ some space ∧ text.IsChain fun a b => ¬(a = space ∧ b = space)) := by
  have htokens : CommandPatternMatcher.splitTokens (cmd.verb ++ space :: (target ++ space :: text))
      = cmd.verb :: target :: CommandPatternMatcher.splitTokens text := by
    rw [CommandPatternMatcher.splitTokens_word (verb_isWord cmd),
      CommandPatternMatcher.splitTokens_word htarget]
  have hparse := parse_of_tokens now hcmd htokens
  rw [CommandPatternMatcher.joinTail_splitTokens] at hparse
  have hsize : compactSize
      (ParsedCommand.content ⟨cmd.name, [target, collapseSpaces text]⟩).metadata
      (ParsedCommand.content ⟨cmd.name, [target, collapseSpaces text]⟩).payload < 2 ^ 32 := by
    have hcollapse := collapseSpaces_length text
    rw [compactSize_text]
    simp only [List.length_append, List.length_cons] at hlength
    omega
  obtain ⟨msg, hmake, hbuilt, hcontent⟩ := makeCommandFromStruct_ok now (by simp) hsize
  have hpayload : msg.getPayload = collapseSpaces text := congrArg Content.payload hcontent
  refine ⟨msg, hparse.trans hmake, congrArg Content.type hcontent, ?_, hpayload, ?_⟩
  · rw [makeStructFromCommand_eq (congrArg Content.metadata hcontent), commandNames_of_hasText hcmd]
    rfl
  · rw [hpayload]
    exact collapseSpaces_eq_self_iff text

/-- The tab stays, and of the two spaces before `c` one. -/
theorem text_of_send_line :
    ∃ msg, Parser.parse 0 (bytes "/send bob  a\tb  c") = .ok msg ∧
      msg.getPayload = collapseSpaces (bytes " a\tb  c") := by
  obtain ⟨msg, hparse, -, -, hpayload, -⟩ := text_of_line 0 (.inl rfl)
    (show IsWord (bytes "bob") by decide) (bytes " a\tb  c") (by decide)
  exact ⟨msg, hparse, hpayload⟩

/-! ## Lines with tabs -/

/-- `'\t'`. -/
def tab : UInt8 := 0x09

/-- White space, as far as a user would say: a space or a tab. The matcher cuts at one of the two,
    and the stream at both and at four more bytes. -/
def isBlank (b : UInt8) : Bool := b = space || b = tab

/-- One or more spaces and tabs, as they may stand between two words. -/
abbrev Gap := { gap : Bytes // gap ≠ [] ∧ ∀ b ∈ gap, isBlank b = true }

/-- A word between spaces and tabs. It may have a line break in it, or another byte that is white
    space to a stream; `KeepsWords` says when this matters. -/
abbrev BlankWord := { word : Bytes // word ≠ [] ∧ ∀ b ∈ word, isBlank b = false }

/-- A command, a target and the words of a message, with spaces and tabs between them: what somebody
    types who does not care which of the two it is. `first` is separate as a message has at least
    one word. -/
structure TypedText where
  command : ClientCommand
  hasText : command.HasText
  beforeTarget : Gap
  target : BlankWord
  afterTarget : Gap
  first : BlankWord
  more : List (Gap × BlankWord)

namespace TypedText

/-- The message, from its first word on. -/
def message (t : TypedText) : Bytes :=
  t.first.val ++ t.more.flatMap fun next => next.1.val ++ next.2.val

/-- The words of the message, which the receiver should find in the text. -/
def words (t : TypedText) : List Bytes := t.first.val :: t.more.map fun next => next.2.val

/-- What is typed. -/
def line (t : TypedText) : Bytes :=
  t.command.verb ++ (t.beforeTarget.val ++ (t.target.val ++ (t.afterTarget.val ++ t.message)))

/-- The target and the text have room in a command message. Both sides of `words_kept_iff` need it:
    where it fails, `parse` throws, and no word arrives at all. -/
def Fits (t : TypedText) (text : Bytes) : Prop :=
  13 + t.target.val.length + 2 * text.length < 2 ^ 32

/-- Either there are only spaces before the target and a space after it. Or a tab comes before the
    target, the message is a single word, and nothing else in the two words is white space to a
    stream. In the first case the template matches, in the second the stream reads the line, and its
    last argument happens to be all of the message. -/
def KeepsWords (t : TypedText) : Prop :=
  ((∀ b ∈ t.beforeTarget.val, b = space) ∧ t.afterTarget.val.head? = some space ∧
    t.Fits (collapseSpaces (t.afterTarget.val ++ t.message))) ∨
  (t.beforeTarget.val.head? = some tab ∧ t.more = [] ∧
    (∀ b ∈ t.target.val, Parser.isSpace b = false) ∧ (∀ b ∈ t.first.val, Parser.isSpace b = false) ∧
    t.Fits t.first.val)

/-- The command names the target, and its text has the words of the message. The gaps between them
    may be others. -/
def Kept (now : UInt64) (t : TypedText) : Prop :=
  ∃ msg, Parser.parse now t.line = .ok msg ∧ msg.getMeta 1 = t.target.val ∧
    fields isBlank msg.getPayload = t.words

end TypedText

theorem isBlank_iff {b : UInt8} : isBlank b = true ↔ b = space ∨ b = tab := by
  simp [isBlank]

/-- What separates words to a user separates them to a stream; the converse is false. -/
theorem isSpace_of_isBlank {b : UInt8} (h : isBlank b = true) : Parser.isSpace b = true := by
  rcases isBlank_iff.mp h with rfl | rfl <;> rfl

theorem isBlank_of_not_isSpace {b : UInt8} (h : Parser.isSpace b = false) : isBlank b = false := by
  by_contra hblank
  rw [isSpace_of_isBlank (by simpa using hblank)] at h
  cases h

theorem tab_ne_space : tab ≠ space := by decide

theorem BlankWord.space_notMem (word : BlankWord) : space ∉ word.val := by
  intro hmem
  have hblank := word.property.2 space hmem
  cases hblank

theorem BlankWord.tab_notMem (word : BlankWord) : tab ∉ word.val := by
  intro hmem
  have hblank := word.property.2 tab hmem
  cases hblank

theorem BlankWord.isWord (word : BlankWord) : IsWord word.val :=
  ⟨word.property.1, word.space_notMem⟩

/-- Every gap begins with a space or with a tab. The proofs split here: this byte decides whether
    the verb is a token of its own. -/
theorem Gap.cases (gap : Gap) :
    ∃ b rest, gap.val = b :: rest ∧ (b = space ∨ b = tab) ∧ ∀ b ∈ rest, b = space ∨ b = tab := by
  obtain ⟨b, rest, hgap⟩ := List.exists_cons_of_ne_nil gap.property.1
  have hblank := gap.property.2
  rw [hgap, List.forall_mem_cons] at hblank
  exact ⟨b, rest, hgap, isBlank_iff.mp hblank.1, fun b hb => isBlank_iff.mp (hblank.2 b hb)⟩

namespace TypedText

variable (t : TypedText)

/-- The words of the message are what its blanks separate, so `Kept` asks for nothing that is not in
    the line. By induction on the further words, each with the gap before it. -/
theorem fields_message : fields isBlank t.message = t.words := by
  have hmore : ∀ (word : BlankWord) (more : List (Gap × BlankWord)),
      fields isBlank (word.val ++ more.flatMap fun next => next.1.val ++ next.2.val)
        = word.val :: more.map fun next => next.2.val := by
    intro word more
    induction more generalizing word with
    | nil =>
      rw [List.flatMap_nil, List.append_nil]
      exact fields_word word.property.1 word.property.2
    | cons next more ih =>
      rw [List.flatMap_cons, List.append_assoc,
        fields_append_gap word.val next.1.property.1 next.1.property.2, ih next.2,
        fields_word word.property.1 word.property.2]
      rfl
  exact hmore t.first t.more

/-! ### A command with two arguments -/

/-- A command with two arguments is made exactly if it fits, and keeps the words exactly if its
    arguments are the target and a text with these words. Both readings of the line end here, the
    template always and the stream if it finds two words. -/
theorem made_iff (now : UInt64) (name word text : Bytes) :
    (∃ msg, Parser.makeCommandFromStruct now ⟨name, [word, text]⟩ = .ok msg ∧
        msg.getMeta 1 = t.target.val ∧ fields isBlank msg.getPayload = t.words) ↔
      word = t.target.val ∧ fields isBlank text = t.words ∧ t.Fits text := by
  unfold TypedText.Fits
  constructor
  · rintro ⟨msg, hmake, htarget, hwords⟩
    obtain ⟨hmetadata, hpayload, hsize, -⟩ := makeCommandFromStruct_inv hmake
    have hword : word = t.target.val := by
      rw [← htarget, Message.getMeta, hmetadata]
      rfl
    rw [compactSize_text] at hsize
    refine ⟨hword, ?_, hword ▸ hsize⟩
    rw [← hwords, Message.getPayload, hpayload]
    rfl
  · rintro ⟨rfl, hwords, hfits⟩
    rw [← compactSize_text name] at hfits
    obtain ⟨msg, hmake, -, hcontent⟩ := makeCommandFromStruct_ok now
      (show [t.target.val, text].length < 255 by simp) hfits
    have hmetadata : msg.metadata = (ParsedCommand.content ⟨name, [t.target.val, text]⟩).metadata :=
      congrArg Content.metadata hcontent
    have hpayload : msg.payload = text := congrArg Content.payload hcontent
    refine ⟨msg, hmake, ?_, ?_⟩
    · rw [Message.getMeta, hmetadata]
      rfl
    · rw [Message.getPayload, hpayload]
      exact hwords

/-! ### A space before the target: the template -/

open CommandPatternMatcher in
/-- A tab does not end a token: what comes before it and it itself are the start of the first
    one. -/
theorem splitTokens_tab {word : Bytes} (hword : space ∉ word) (more : Bytes) :
    ∃ rest tokens, splitTokens (word ++ tab :: more) = (word ++ tab :: rest) :: tokens := by
  have hspaceless : space ∉ word ++ [tab] := by
    rw [List.mem_append, List.mem_singleton, not_or]
    exact ⟨hword, Ne.symm tab_ne_space⟩
  obtain ⟨rest, tokens, hfirst⟩ := splitLoop_first (List.append_ne_nil_of_right_ne_nil word
    (List.cons_ne_nil tab [])) more
  refine ⟨rest, tokens, ?_⟩
  unfold splitTokens
  rw [List.append_cons, splitLoop_append hspaceless, List.nil_append, hfirst, List.append_assoc]
  rfl

/-- A tab in the gap before the target or at the start of the one after it gets into the capture. By
    induction on the gap: spaces are skipped, and the first tab begins a token that does not end
    before the target does. With no tab before the target, it is the gap behind it that sticks to
    the target. -/
theorem capture_of_tab {gap : Bytes} (hgap : ∀ b ∈ gap, b = space ∨ b = tab)
    (h : ¬((∀ b ∈ gap, b = space) ∧ t.afterTarget.val.head? = some space)) :
    ∃ word tokens, CommandPatternMatcher.splitTokens
        (gap ++ (t.target.val ++ (t.afterTarget.val ++ t.message))) = word :: tokens ∧
          tab ∈ word := by
  induction gap with
  | nil =>
    obtain ⟨b, rest, hafter, hb, -⟩ := t.afterTarget.cases
    rw [hafter] at h ⊢
    rcases hb with rfl | rfl
    · exact absurd ⟨by simp, rfl⟩ h
    · obtain ⟨more, tokens, hsplit⟩ := splitTokens_tab t.target.space_notMem (rest ++ t.message)
      exact ⟨_, tokens, hsplit, by simp⟩
  | cons b gap ih =>
    rw [List.forall_mem_cons] at hgap h
    rcases hgap.1 with rfl | rfl
    · -- leading spaces are skipped
      exact ih hgap.2 fun hspaces => h ⟨⟨rfl, hspaces.1⟩, hspaces.2⟩
    · obtain ⟨more, tokens, hsplit⟩ := splitTokens_tab List.not_mem_nil
        (gap ++ (t.target.val ++ (t.afterTarget.val ++ t.message)))
      exact ⟨_, tokens, hsplit, by simp⟩

theorem splitTokens_line {gap : Bytes} (hbefore : t.beforeTarget.val = space :: gap) :
    CommandPatternMatcher.splitTokens t.line = t.command.verb ::
      CommandPatternMatcher.splitTokens
        (gap ++ (t.target.val ++ (t.afterTarget.val ++ t.message))) := by
  unfold TypedText.line
  rw [hbefore, List.cons_append, CommandPatternMatcher.splitTokens_word (verb_isWord _)]

/-- Where the template finds its spaces, it captures the target and the rest of the line. The
    further spaces before the target are skipped, and those behind it belong to the text, where they
    are collapsed away. -/
theorem parse_of_spaces {gap : Bytes} (hbefore : t.beforeTarget.val = space :: gap)
    (hgap : ∀ b ∈ gap, b = space) (hafter : t.afterTarget.val.head? = some space) (now : UInt64) :
    Parser.parse now t.line = Parser.makeCommandFromStruct now ⟨t.command.name,
      [t.target.val, collapseSpaces (t.afterTarget.val ++ t.message)]⟩ := by
  obtain ⟨rest, hrest⟩ := List.head?_eq_some_iff.mp hafter
  have hreplicate : gap = List.replicate gap.length space := List.eq_replicate_iff.mpr ⟨rfl, hgap⟩
  have htokens := t.splitTokens_line hbefore
  rw [hreplicate, CommandPatternMatcher.splitTokens_spaces, hrest, List.cons_append,
    CommandPatternMatcher.splitTokens_word t.target.isWord] at htokens
  have hparse : Parser.parse now t.line = _ := parse_of_tokens now t.hasText htokens
  rw [hparse, CommandPatternMatcher.joinTail_splitTokens, hrest, List.cons_append,
    collapseSpaces_space]

theorem fields_text :
    fields isBlank (collapseSpaces (t.afterTarget.val ++ t.message)) = t.words := by
  rw [fields_collapseSpaces rfl, fields_gap t.afterTarget.property.2, t.fields_message]

/-- **The template.** A space follows the verb, so the template matches in any case, and the
    question is what it captures. If there is a tab where it looks for a space, then the tab is in
    the first capture; the target has none, so the message is for somebody else. -/
theorem kept_iff_of_space {gap : Bytes} (hbefore : t.beforeTarget.val = space :: gap)
    (hgap : ∀ b ∈ gap, b = space ∨ b = tab) (now : UInt64) : t.Kept now ↔ t.KeepsWords := by
  have hnotab : t.beforeTarget.val.head? ≠ some tab := by
    rw [hbefore]
    intro h
    exact tab_ne_space (Option.some.inj h).symm
  have hall : (∀ b ∈ t.beforeTarget.val, b = space) ↔ ∀ b ∈ gap, b = space := by
    rw [hbefore, List.forall_mem_cons]
    exact and_iff_right rfl
  unfold TypedText.Kept TypedText.KeepsWords
  by_cases hspaces : (∀ b ∈ gap, b = space) ∧ t.afterTarget.val.head? = some space
  · rw [t.parse_of_spaces hbefore hspaces.1 hspaces.2, t.made_iff]
    constructor
    · rintro ⟨-, -, hfits⟩
      exact .inl ⟨hall.mpr hspaces.1, hspaces.2, hfits⟩
    · rintro (⟨-, -, hfits⟩ | ⟨htab, -⟩)
      · exact ⟨rfl, t.fields_text, hfits⟩
      · exact absurd htab hnotab
  · -- the capture has a tab in it, so it is not the target
    obtain ⟨word, tokens, hcapture, htab⟩ := t.capture_of_tab hgap hspaces
    have htokens := t.splitTokens_line hbefore
    rw [hcapture] at htokens
    have hparse : Parser.parse now t.line = _ := parse_of_tokens now t.hasText htokens
    rw [hparse, t.made_iff]
    constructor
    · rintro ⟨rfl, -⟩
      exact absurd htab t.target.tab_notMem
    · rintro (⟨hbefore, hspace, -⟩ | ⟨htab, -⟩)
      · exact absurd ⟨hall.mp hbefore, hspace⟩ hspaces
      · exact absurd htab hnotab

/-! ### A tab before the target: the words of the line -/

theorem catalog_tabless : ∀ pattern ∈ defaultCommandCatalog, ∀ token ∈ pattern.tokens,
    tab ∉ token.value := by
  decide +kernel

/-- No template begins with a tab in its first word, so a line that does is matched by none. -/
theorem match_none_of_tab {line word : Bytes} {tokens : List Bytes}
    (hline : CommandPatternMatcher.splitTokens line = word :: tokens) (htab : tab ∈ word) :
    CommandPatternMatcher.match_ defaultCommandCatalog line = none := by
  cases hmatch : CommandPatternMatcher.match_ defaultCommandCatalog line with
  | none => rfl
  | some found =>
    obtain ⟨pattern, hpattern, hfound⟩ :=
      (CommandPatternMatcher.match_eq_some_iff (List.Perm.refl _)).mp hmatch
    obtain ⟨verb, rest, hverb, hhead⟩ :=
      CommandPatternMatcher.head_of_tryMatch
        (CommandPatternMatcher.catalog_wellFormed hpattern) hfound
    obtain ⟨rfl, -⟩ := List.cons.inj (hline.symm.trans hverb)
    exact absurd htab (catalog_tabless pattern hpattern _ (List.mem_of_mem_head? hhead))

/-- Nothing in a verb is white space, for a stream either. -/
theorem verb_no_isSpace (cmd : ClientCommand) : ∀ b ∈ cmd.verb, Parser.isSpace b = false := by
  cases cmd <;> decide +kernel

/-- The arguments are the words that a stream finds after the verb. The tab is in the first token,
    so no template matches, and `parse_line` goes on to the stream, for which a tab is as good as a
    space. -/
theorem parseLine_of_tab {gap : Bytes} (hbefore : t.beforeTarget.val = tab :: gap) :
    Parser.parseLine t.line
      = { name := t.command.name,
          args := fields Parser.isSpace t.target.val ++ fields Parser.isSpace t.message } := by
  have hspaceless : space ∉ t.command.verb := (verb_isWord t.command).2
  obtain ⟨rest, tokens, hfirst⟩ := splitTokens_tab hspaceless
    (gap ++ (t.target.val ++ (t.afterTarget.val ++ t.message)))
  have hline : CommandPatternMatcher.splitTokens t.line
      = (t.command.verb ++ tab :: rest) :: tokens := by
    unfold TypedText.line
    rw [hbefore]
    exact hfirst
  -- the tab is part of the first token, and no template begins with such a word
  have hnone := match_none_of_tab hline (by simp)
  have hgap : ∀ gap : Gap, ∀ b ∈ gap.val, Parser.isSpace b = true :=
    fun gap b hb => isSpace_of_isBlank (gap.property.2 b hb)
  have hwords : Parser.streamTokens t.line = t.command.verb ::
      (fields Parser.isSpace t.target.val ++ fields Parser.isSpace t.message) := by
    show fields Parser.isSpace t.line = _
    unfold TypedText.line
    rw [fields_append_gap _ t.beforeTarget.property.1 (hgap _),
      fields_append_gap _ t.afterTarget.property.1 (hgap _),
      fields_word (verb_isWord t.command).1 (verb_no_isSpace t.command)]
    rfl
  unfold Parser.parseLine Parser.parseWords
  rw [hnone, hwords]
  rfl

/-- With one word for the message and no other white space in the two, there are two arguments. -/
theorem args_of_plain (hmore : t.more = []) (htarget : ∀ b ∈ t.target.val, Parser.isSpace b = false)
    (hfirst : ∀ b ∈ t.first.val, Parser.isSpace b = false) :
    fields Parser.isSpace t.target.val ++ fields Parser.isSpace t.message
      = [t.target.val, t.first.val] := by
  have hmessage : t.message = t.first.val := by
    unfold TypedText.message
    rw [hmore, List.flatMap_nil, List.append_nil]
  rw [hmessage, fields_word t.target.property.1 htarget, fields_word t.first.property.1 hfirst]
  rfl

/-- The first argument is a word to a stream, and so is the last, which is all of the text. So if
    the target and the words of the message are found there, the target is one word to a stream and
    the message is one word, and no more. This is the direction that says that words are lost. -/
theorem plain_of_kept {name : Bytes} {msg : Message} {now : UInt64}
    (hmake : Parser.makeCommandFromStruct now
      ⟨name, fields Parser.isSpace t.target.val ++ fields Parser.isSpace t.message⟩ = .ok msg)
    (htarget : msg.getMeta 1 = t.target.val) (hwords : fields isBlank msg.getPayload = t.words) :
    t.more = [] ∧ (∀ b ∈ t.target.val, Parser.isSpace b = false) ∧
      ∀ b ∈ t.first.val, Parser.isSpace b = false := by
  obtain ⟨hmetadata, hpayload, -, -⟩ := makeCommandFromStruct_inv hmake
  -- both the target and the text are arguments, and every argument is a word to a stream
  have hargs : ∀ arg ∈ fields Parser.isSpace t.target.val ++ fields Parser.isSpace t.message,
      arg ≠ [] ∧ ∀ b ∈ arg, Parser.isSpace b = false := by
    intro arg harg
    rcases List.mem_append.mp harg with harg | harg <;> exact mem_fields harg
  rw [Message.getMeta, hmetadata] at htarget
  rw [Message.getPayload, hpayload] at hwords
  cases hlist : fields Parser.isSpace t.target.val ++ fields Parser.isSpace t.message with
  | nil =>
    rw [hlist] at htarget
    exact absurd htarget.symm t.target.property.1
  | cons arg args =>
    rw [hlist] at htarget hwords hargs
    obtain rfl : arg = t.target.val := htarget
    -- the payload is the last argument, and it is not the target only if there are others
    have hlast := hargs ((t.target.val :: args).getLast (List.cons_ne_nil _ _)) (List.getLast_mem _)
    have hpayload : (ParsedCommand.content ⟨name, t.target.val :: args⟩).payload
        = (t.target.val :: args).getLast (List.cons_ne_nil _ _) := by
      show (t.target.val :: args).getLast?.getD [] = _
      rw [List.getLast?_eq_some_getLast (List.cons_ne_nil _ _)]
      rfl
    rw [hpayload, fields_word hlast.1 fun b hb => isBlank_of_not_isSpace (hlast.2 b hb)] at hwords
    obtain ⟨hfirst, hmore⟩ := List.cons.inj hwords
    rw [hfirst] at hlast
    exact ⟨List.map_eq_nil_iff.mp hmore.symm, (hargs _ List.mem_cons_self).2, hlast.2⟩

/-- **The words of the line.** With a tab behind the verb the stream reads the line, every word is
    an argument, and the text is the last of them: all the words before it are in the message and
    not in its text. -/
theorem kept_iff_of_tab {gap : Bytes} (hbefore : t.beforeTarget.val = tab :: gap) (now : UInt64) :
    t.Kept now ↔ t.KeepsWords := by
  have hparse : Parser.parse now t.line = Parser.makeCommandFromStruct now ⟨t.command.name,
      fields Parser.isSpace t.target.val ++ fields Parser.isSpace t.message⟩ := by
    rw [← t.parseLine_of_tab hbefore]
    rfl
  have htab : t.beforeTarget.val.head? = some tab := by rw [hbefore]; rfl
  unfold TypedText.Kept TypedText.KeepsWords
  rw [hparse]
  constructor
  · rintro ⟨msg, hmake, htarget, hwords⟩
    obtain ⟨hmore, hplain, hplain'⟩ := t.plain_of_kept hmake htarget hwords
    rw [t.args_of_plain hmore hplain hplain'] at hmake
    have hfits := ((t.made_iff now _ _ _).mp ⟨msg, hmake, htarget, hwords⟩).2.2
    exact .inr ⟨htab, hmore, hplain, hplain', hfits⟩
  · rintro (⟨hspaces, -⟩ | ⟨-, hmore, hplain, hplain', hfits⟩)
    · rw [hbefore] at hspaces
      exact absurd (hspaces tab List.mem_cons_self) tab_ne_space
    · rw [t.args_of_plain hmore hplain hplain', t.made_iff]
      refine ⟨rfl, ?_, hfits⟩
      rw [fields_word t.first.property.1 t.first.property.2]
      unfold TypedText.words
      rw [hmore]
      rfl

end TypedText

/-- **No word of a message is lost**, exactly if the line keeps to spaces where the template looks
    for them, or if there is nothing to lose. The user does not learn about it: the command is
    accepted in any case, and sent. -/
theorem words_kept_iff (now : UInt64) (t : TypedText) :
    (∃ msg, Parser.parse now t.line = .ok msg ∧ msg.getMeta 1 = t.target.val ∧
      fields isBlank msg.getPayload = t.words) ↔ t.KeepsWords := by
  obtain ⟨b, gap, hbefore, rfl | rfl, hgap⟩ := t.beforeTarget.cases
  · exact t.kept_iff_of_space hbefore hgap now
  · exact t.kept_iff_of_tab hbefore now

/-- A tab after `/send`, and of two words only the last is sent. -/
theorem tab_loses_word :
    ∃ msg, Parser.parse 0 (bytes "/send\tbob hi there") = .ok msg ∧ msg.getMeta 1 = bytes "bob" ∧
      fields isBlank msg.getPayload = [bytes "there"] := by
  refine ⟨_, rfl, ?_, ?_⟩ <;> decide +kernel

end Messenger
