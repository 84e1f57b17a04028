import Messenger.Model.Command

/-!
# `protocol/parser.cpp`: from a typed line to a message

A line that starts with a slash is matched against the templates of
`application/commands/command_catalog.cpp`, first to last, by
`application/commands/command_pattern_matcher.cpp`. Only if none matches, the line is cut
at white space as it was before there were templates. Any other line is a text.
-/

set_option autoImplicit false

namespace Messenger

/-! ## Templates -/

/-- What a word of a template stands for: itself, any one word, or all words that are left. -/
inductive PatternTokenKind
  | literal
  | capture
  | tailCapture
  deriving DecidableEq, Repr

/-- A word of a template, compiled. -/
structure PatternToken where
  kind : PatternTokenKind
  value : Bytes
  deriving DecidableEq, Repr

/-- A template with the command it belongs to. The text is kept, but matching uses the tokens. -/
structure CommandPattern where
  commandName : Bytes
  templateText : Bytes
  tokens : List PatternToken := []
  deriving DecidableEq, Repr

/-- What a template has made of a line. -/
structure CommandMatch where
  commandName : Bytes
  captures : List Bytes
  deriving DecidableEq, Repr

/-- `' '`. -/
def space : UInt8 := 0x20

namespace CommandPatternMatcher

/-- The loop of `split_tokens`, with the token `cur` read so far. What is left at the end is a
    token, also when it is empty. So a line that ends in a space has one empty word more, which a
    template does not match unless its last word takes it. -/
def splitLoop (cur : Bytes) : Bytes → List Bytes
  | [] => [cur]
  | c :: text =>
    if c = space then
      if !cur.isEmpty then cur :: splitLoop [] text else splitLoop [] text
    else splitLoop (cur ++ [c]) text

def splitTokens (text : Bytes) : List Bytes := splitLoop [] text

/-- One turn of the loop of `compile_pattern`. The end of the word is looked at first, so a tail is
    recognised before it could be taken for a capture. The name inside the braces is kept and never
    looked at again. -/
def compileToken (token : Bytes) : PatternToken :=
  if (bytes "...\x7d").isSuffixOf token then
    { kind := .tailCapture, value := (token.drop 1).take (token.length - 4) }
  else if (bytes "\x7b").isPrefixOf token then
    { kind := .capture, value := (token.drop 1).take (token.length - 2) }
  else { kind := .literal, value := token }

/-- A template, cut at spaces and compiled word by word. -/
def compilePattern (commandName templateText : Bytes) : CommandPattern where
  commandName := commandName
  templateText := templateText
  tokens := (splitTokens templateText).map compileToken

/-- `if (!tail.empty()) tail += ' '; tail += token;` for each of the tokens. The words are put
    together with single spaces, so how many there were in the line is lost. -/
def joinTail (tokens : List Bytes) : Bytes :=
  tokens.foldl (fun tail token => (if !tail.isEmpty then tail ++ [space] else tail) ++ token) []

/-- The loop of `try_match`: the captures, and the input tokens that are left. Nothing if it returns
    from inside the loop. Only the captures are collected, since a word that is matched literally is
    known. -/
def matchTokens : List PatternToken → List Bytes → Option (List Bytes × List Bytes)
  | [], input => some ([], input)
  | token :: tokens, input =>
    match token.kind with
    | .literal =>
      match input with
      | [] => none
      | word :: input => if word ≠ token.value then none else matchTokens tokens input
    | .capture =>
      match input with
      | [] => none
      | word :: input =>
        match matchTokens tokens input with
        | none => none
        | some (captures, left) => some (word :: captures, left)
    | .tailCapture => if !tokens.isEmpty then none else some ([joinTail input], [])

/-- A match uses up all tokens. There is no backtracking: a template has one way to match a line. -/
def tryMatch (pattern : CommandPattern) (inputTokens : List Bytes) : Option CommandMatch :=
  match matchTokens pattern.tokens inputTokens with
  | some (captures, []) => some { commandName := pattern.commandName, captures := captures }
  | _ => none

/-- The first template that matches wins. The line is cut once, for all of them. -/
def match_ (patterns : List CommandPattern) (input : Bytes) : Option CommandMatch :=
  let tokens := splitTokens input
  patterns.findSome? fun pattern => tryMatch pattern tokens

end CommandPatternMatcher

/-- `default_command_catalog()`, as the constructor of `Parser` compiles it. -/
def defaultCommandCatalog : List CommandPattern :=
  [("login", "/login \x7busername\x7d"), ("room", "/room \x7bname\x7d"),
    ("join", "/join \x7bname\x7d"), ("send", "/send \x7bchat\x7d \x7bmessage...\x7d"),
    ("pmess", "/pmess \x7brecipient\x7d \x7bmessage...\x7d"),
    ("getpub", "/getpub \x7busername\x7d"),
    ("sendfile", "/sendfile \x7brecipient\x7d \x7bfilename\x7d"),
    ("connect", "/connect \x7bip\x7d \x7bport\x7d \x7bdh\x7d \x7bidentity\x7d \x7bsig\x7d"),
    ("disconnect", "/disconnect \x7busername\x7d"), ("exit", "/exit"), ("help", "/help")].map
    fun (name, template) => CommandPatternMatcher.compilePattern (bytes name) (bytes template)

/-! ## `Parser` -/

namespace Parser

/-- `isspace`, in the locale that streams have. -/
def isSpace (c : UInt8) : Bool := c = 0x20 || (0x09 ≤ c && c ≤ 0x0D)

/-- `while (ss >> token)`. Other than the templates, this cuts at any white space and gives no empty
    words. -/
def streamTokens (text : Bytes) : List Bytes :=
  (text.splitOnP isSpace).filter fun token => !token.isEmpty

/-- The words of the line, when no template matches it. A slash or a dollar sign before the name is
    taken off. -/
def parseWords (line : Bytes) : ParsedCommand :=
  match streamTokens line with
  | [] => {}
  | firstSegment :: tokens =>
    let name := match firstSegment with
      | c :: rest => if c = 0x2F || c = 0x24 then rest else firstSegment
      | [] => firstSegment
    { name := name, args := tokens }

/-- The templates, and the words if none of them matches. -/
def parseLine (line : Bytes) : ParsedCommand :=
  if line.isEmpty then {}
  else
    match CommandPatternMatcher.match_ defaultCommandCatalog line with
    | some found => { name := found.commandName, args := found.captures }
    | none => parseWords line

/-- An empty line gives an empty message, and a line that does not begin with a slash is a text that
    is sent as it is. -/
def parse (now : UInt64) (message : Bytes) : Except Failure Message :=
  match message with
  | [] => .ok {}
  | c :: _ =>
    if c = 0x2F then makeCommandFromStruct now (parseLine message)
    else
      Message.setPayload
        { header := { type := .text, protocolVersion := 1, timestamp := now } } message

end Parser

end Messenger
