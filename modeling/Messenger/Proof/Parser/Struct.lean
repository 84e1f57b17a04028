import Messenger.Proof.Parser.Catalog
import Messenger.Proof.Wire.Command

/-!
# A matched line, as a message and back

`parse` makes a message of what `parse_line` finds, and `make_struct_from_command` reads the
command from the message again. The captures of a line have no more bytes than the line, so
they fit a message. What comes back is what was found, for every template but one: `help` has
no code. And `parse` does not ask `parse_line` about a line that begins with a space, which
the templates would match.

That the captures fit is a count of bytes along the loop of the matcher. Each token costs its bytes
and one for the space behind it; a capture is a token, and a tail is its tokens with a space
between any two, so the captures have at most one byte more than the line. The last argument is
written twice, as an entry and as the payload, hence the bound of 2³⁰ for the line.

The slash is what the two functions disagree about: `parse` looks at the first byte of the line,
and the matcher skips spaces.
-/

set_option autoImplicit false

namespace Messenger

open Messenger.Lib

namespace CommandPatternMatcher

/-! ## The bytes of the captures -/

/-- The bytes of the tokens, with one more for each: a bound for what the tail loop can make of
    them, and in turn bounded by the line. -/
def tokenCost (tokens : List Bytes) : Nat := (tokens.map fun token => token.length + 1).sum

/-- The tokens cost no more than the line has bytes, and one. Every token but the last is followed
    by a space of the line. -/
theorem tokenCost_splitLoop (cur text : Bytes) :
    tokenCost (splitLoop cur text) ≤ cur.length + text.length + 1 := by
  -- the space that ends a token pays for the one byte more
  induction text generalizing cur with
  | nil => simp [splitLoop, tokenCost]
  | cons c text ih =>
    have hrest := ih []
    rw [List.length_nil] at hrest
    rw [List.length_cons]
    by_cases hc : c = space
    · subst hc
      by_cases hempty : cur = []
      · subst hempty
        show tokenCost (splitLoop [] text) ≤ _
        rw [List.length_nil]
        omega
      · rw [splitLoop_space hempty]
        unfold tokenCost at hrest ⊢
        rw [List.map_cons, List.sum_cons]
        omega
    · have hmore := ih (cur ++ [c])
      rw [List.length_append, List.length_singleton] at hmore
      rw [splitLoop, if_neg hc]
      omega

/-- A joined tail has the bytes of its tokens and fewer spaces than there are tokens. -/
theorem joinTail_length_le (tokens : List Bytes) : (joinTail tokens).length ≤ tokenCost tokens := by
  -- each turn adds the token and at most one space
  have hloop : ∀ (tokens : List Bytes) (tail : Bytes),
      (tokens.foldl (fun tail token =>
        (if !tail.isEmpty then tail ++ [space] else tail) ++ token) tail).length
          ≤ tail.length + tokenCost tokens := by
    intro tokens
    induction tokens with
    | nil =>
      intro tail
      exact Nat.le_add_right _ _
    | cons token tokens ih =>
      intro tail
      have hrest := ih ((if !tail.isEmpty then tail ++ [space] else tail) ++ token)
      have hjoined : ((if !tail.isEmpty then tail ++ [space] else tail) ++ token).length
          ≤ tail.length + 1 + token.length := by
        rw [List.length_append]
        split
        · rw [List.length_append, List.length_singleton]
        · omega
      unfold tokenCost at hrest ⊢
      rw [List.foldl_cons, List.map_cons, List.sum_cons]
      omega
  have htokens := hloop tokens []
  rw [List.length_nil, Nat.zero_add] at htokens
  exact htokens

/-- The captures have no more bytes than the tokens cost, and there are no more of them than the
    template has tokens. Only the tail makes one capture of several tokens, and only it pays for the
    spaces between them. -/
theorem captures_le {tokens : List PatternToken} {input captures left : List Bytes}
    (h : matchTokens tokens input = some (captures, left)) :
    (captures.map List.length).sum ≤ tokenCost input ∧ captures.length ≤ tokens.length := by
  induction tokens generalizing input captures with
  | nil =>
    obtain ⟨rfl, rfl⟩ := Prod.mk.inj (Option.some.inj h)
    simp
  | cons token tokens ih =>
    obtain ⟨kind, name⟩ := token
    cases kind with
    | literal =>
      obtain ⟨rest, rfl, hmatch⟩ := matchTokens_literal_some h
      have hrest := ih hmatch
      unfold tokenCost at hrest ⊢
      rw [List.map_cons, List.sum_cons, List.length_cons]
      omega
    | capture =>
      obtain ⟨word, rest, others, rfl, rfl, hmatch⟩ := matchTokens_capture_some h
      have hrest := ih hmatch
      unfold tokenCost at hrest ⊢
      rw [List.map_cons, List.sum_cons, List.map_cons, List.sum_cons, List.length_cons,
        List.length_cons]
      omega
    | tailCapture =>
      obtain ⟨rfl, rfl, -⟩ := matchTokens_tail_some h
      have htail := joinTail_length_le input
      simp
      exact htail

end CommandPatternMatcher

/-- What the entries of a command take: two bytes for the length of each. -/
theorem sum_entries (args : List Bytes) :
    (args.map fun arg => 2 + arg.length).sum = 2 * args.length + (args.map List.length).sum := by
  induction args with
  | nil => rfl
  | cons arg args ih =>
    rw [List.map_cons, List.sum_cons, ih, List.map_cons, List.sum_cons, List.length_cons]
    omega

theorem last_length_le (args : List Bytes) :
    (args.getLast?.getD []).length ≤ (args.map List.length).sum := by
  cases hlast : args.getLast? with
  | none => exact Nat.zero_le _
  | some arg =>
    exact List.single_le_sum (fun _ _ => Nat.zero_le _) _
      (List.mem_map_of_mem (List.mem_of_getLast? hlast))

/-- A command takes its arguments twice at most: all of them are entries, and the last one is the
    payload again. -/
theorem compactSize_args_le (name : Bytes) (args : List Bytes) :
    compactSize (ParsedCommand.content ⟨name, args⟩).metadata
      (ParsedCommand.content ⟨name, args⟩).payload
      ≤ 9 + 2 * args.length + 2 * (args.map List.length).sum := by
  have hsum := sum_entries args
  have hlast := last_length_le args
  -- the header, the code of the command, and the length of the payload
  show 2 + ((2 + 1) + (args.map fun arg => 2 + arg.length).sum) + 4
    + (args.getLast?.getD []).length ≤ _
  omega

/-! ## There and back -/

/-- Only for `help` the name is lost: it has no `CommandType`, so it goes out as `UNKNOWN` and comes
    back as that. The other two facts about the catalog are that no command has the name that is
    found then, and that a template has at most six tokens, far fewer than an entry count can
    hold. -/
theorem catalog_codes : ∀ pattern ∈ defaultCommandCatalog,
    ((commandNamesMap (.ofByte ((commandTypesMap pattern.commandName).getD .unknown).toByte)).getD
        (bytes "unknown") = pattern.commandName ↔ pattern.commandName ≠ bytes "help") ∧
      pattern.commandName ≠ bytes "unknown" ∧ pattern.tokens.length ≤ 6 := by
  decide +kernel

section

open CommandPatternMatcher

variable {pattern : CommandPattern} {line : Bytes} {found : CommandMatch}

/-- A line that is matched is not empty, and its captures are what `parse_line` finds. The empty
    line is asked about first in the source; it is one empty token, which is not the verb of any
    template. -/
theorem parseLine_of_match (hpattern : pattern ∈ defaultCommandCatalog)
    (h : tryMatch pattern (splitTokens line) = some found) :
    line ≠ [] ∧
      Parser.parseLine line = { name := pattern.commandName, args := found.captures } := by
  have hmatch : match_ defaultCommandCatalog line = some found :=
    (match_eq_some_iff (List.Perm.refl _)).mpr ⟨pattern, hpattern, h⟩
  have hwell := catalog_wellFormed hpattern
  have hline : line ≠ [] := by
    rintro rfl
    obtain ⟨verb, rest, htokens, hverb⟩ := head_of_tryMatch hwell h
    obtain ⟨rfl, -⟩ := List.cons.inj (show [[]] = verb :: rest from htokens)
    exact (hwell.literals _ (List.mem_of_mem_head? hverb) rfl).1 rfl
  refine ⟨hline, ?_⟩
  unfold Parser.parseLine
  rw [hmatch, (tryMatch_eq_some_iff.mp h).2, if_neg (by simpa using hline)]

/-- The captures of a line that is not too long fit a message. The bound is generous: the arguments
    go into the message twice, and 2³⁰ leaves room for the lengths as well. -/
theorem captures_fit (hpattern : pattern ∈ defaultCommandCatalog)
    (h : tryMatch pattern (splitTokens line) = some found) (hlength : line.length < 2 ^ 30)
    (now : UInt64) :
    ∃ msg, Parser.makeCommandFromStruct now ⟨pattern.commandName, found.captures⟩ = .ok msg ∧
      msg.Built ∧
      msg.metadata = (ParsedCommand.content ⟨pattern.commandName, found.captures⟩).metadata := by
  obtain ⟨hbytes, hcount⟩ := captures_le (tryMatch_eq_some_iff.mp h).1
  have hcost : tokenCost (splitTokens line) ≤ line.length + 1 := by
    have hloop := tokenCost_splitLoop [] line
    rwa [List.length_nil, Nat.zero_add] at hloop
  have hshort := (catalog_codes pattern hpattern).2.2
  have hsize := compactSize_args_le pattern.commandName found.captures
  obtain ⟨msg, hmake, hbuilt, hcontent⟩ := makeCommandFromStruct_ok now
    (show (ParsedCommand.mk pattern.commandName found.captures).args.length < 255 by
      show found.captures.length < 255
      omega)
    (by omega)
  exact ⟨msg, hmake, hbuilt, congrArg Content.metadata hcontent⟩

/-- **A matched command survives the way through a message**, exactly if the line begins with a
    slash and the command is not `help`. A line may be matched and not begin with a slash, since
    `split_tokens` skips spaces at the start; `parse` looks at the first byte and takes it for a
    text. -/
theorem matched_command_survives_iff (now : UInt64) (hpattern : pattern ∈ defaultCommandCatalog)
    (hmatched : (tryMatch pattern (splitTokens line)).isSome) (hlength : line.length < 2 ^ 30) :
    (∃ msg, Parser.parse now line = .ok msg ∧
        Parser.makeStructFromCommand msg = Parser.parseLine line) ↔
      line.head? = some 0x2F ∧ pattern.commandName ≠ bytes "help" := by
  obtain ⟨found, hfound⟩ := Option.isSome_iff_exists.mp hmatched
  obtain ⟨hline, hparsed⟩ := parseLine_of_match hpattern hfound
  obtain ⟨hcode, hknown, -⟩ := catalog_codes pattern hpattern
  obtain ⟨c, rest, rfl⟩ := List.exists_cons_of_ne_nil hline
  by_cases hslash : c = 0x2F
  · -- the arguments come back as they are; only the name goes through a code
    subst hslash
    obtain ⟨msg, hmake, -, hmetadata⟩ := captures_fit hpattern hfound hlength now
    have hparse : Parser.parse now (0x2F :: rest) = .ok msg := by
      rw [← hmake, ← hparsed]
      rfl
    have hback := makeStructFromCommand_eq hmetadata
    rw [hparsed]
    constructor
    · rintro ⟨msg', hparse', hsame⟩
      obtain rfl := Except.ok.inj (hparse.symm.trans hparse')
      rw [hback] at hsame
      exact ⟨rfl, hcode.mp (congrArg ParsedCommand.name hsame)⟩
    · rintro ⟨-, hhelp⟩
      refine ⟨msg, hparse, ?_⟩
      rw [hback, hcode.mpr hhelp]
  · -- the line is a text, which has no entries
    constructor
    · rintro ⟨msg, hparse, hsame⟩
      unfold Parser.parse at hparse
      dsimp only at hparse
      rw [if_neg hslash] at hparse
      have hentry : msg.getMeta 0 = [] := by
        rw [Message.getMeta, (setPayload_inv hparse).1]
        rfl
      have hname : (Parser.makeStructFromCommand msg).name = bytes "unknown" := by
        unfold Parser.makeStructFromCommand
        rw [hentry]
      rw [hsame, hparsed] at hname
      exact absurd hname hknown
    · rintro ⟨hfirst, -⟩
      exact absurd (Option.some.inj hfirst) hslash

end

/-- Two spaces before the name: the matcher takes them for one. -/
theorem join_command_survives :
    ∃ msg, Parser.parse 0 (bytes "/join  lobby") = .ok msg ∧
      Parser.makeStructFromCommand msg = Parser.parseLine (bytes "/join  lobby") := by
  have hpattern : CommandPatternMatcher.compilePattern (bytes "join") (bytes "/join \x7bname\x7d")
      ∈ defaultCommandCatalog := by
    decide +kernel
  exact (matched_command_survives_iff 0 hpattern (by decide +kernel) (by decide)).mpr
    ⟨by decide, by decide⟩

/-- `/help` comes back as an unknown command, and so does `/exit` behind a space. -/
theorem help_command_lost :
    (∃ msg, Parser.parse 0 (bytes "/help") = .ok msg ∧
      (Parser.makeStructFromCommand msg).name = bytes "unknown" ∧
      (Parser.parseLine (bytes "/help")).name = bytes "help") ∧
    ∃ msg, Parser.parse 0 (bytes " /exit") = .ok msg ∧
      (Parser.makeStructFromCommand msg).name = bytes "unknown" ∧
      (Parser.parseLine (bytes " /exit")).name = bytes "exit" := by
  refine ⟨⟨_, rfl, ?_, ?_⟩, ⟨_, rfl, ?_, ?_⟩⟩ <;> decide +kernel

end Messenger
