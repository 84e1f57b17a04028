import Messenger.Proof.Parser.Tokens

/-!
# The templates

A template of the catalog begins with its command, and no two begin alike, so at most one
matches a line (`match_unique`) and the order of the catalog does not matter. `Fills` says
which words and captures belong to a template; a line of such words is matched with these
captures (`matchTokens_fills`). And a line that is matched can be written again from the
captures: the tokens may be others, the captures are the same (`matchTokens_again`).

The matcher goes through the tokens of the line and those of the template at the same time, and all
inductions here are on the template, with the three kinds of tokens as cases. For each kind there
is an inversion (`matchTokens_literal_some`, `matchTokens_capture_some`, `matchTokens_tail_some`).
The delicate case is the empty token at the end of a line, which a capture may take. Runs of spaces
are not kept, so writing a line again does not give the line that was matched, and
`matchTokens_again` is about the captures only.
-/

set_option autoImplicit false

namespace Messenger

open Messenger.Lib

/-- The words are those of the template with the captures filled in. Captures are words, and a tail
    is any number of words, captured with one space between them. An empty tail is allowed: `/send
    bob` fills its template with an empty message. -/
inductive Fills : List PatternToken → List Bytes → List Bytes → Prop
  | nil : Fills [] [] []
  | literal {word : Bytes} {tokens : List PatternToken} {words captures : List Bytes} :
    Fills tokens words captures → Fills (⟨.literal, word⟩ :: tokens) (word :: words) captures
  | capture {name word : Bytes} {tokens : List PatternToken} {words captures : List Bytes} :
    IsWord word → Fills tokens words captures →
      Fills (⟨.capture, name⟩ :: tokens) (word :: words) (word :: captures)
  | tail {name : Bytes} {words : List Bytes} : (∀ w ∈ words, IsWord w) →
    Fills [⟨.tailCapture, name⟩] words [unwords words]

/-- The tokens of a template, each capture replaced by what was captured. There are as many captures
    as the template has places for them; `headD` and `tail` make this total, and nothing depends on
    what it gives otherwise. -/
def substitute : List PatternToken → List Bytes → List Bytes
  | [], _ => []
  | token :: tokens, captures =>
    match token.kind with
    | .literal => token.value :: substitute tokens captures
    | .capture | .tailCapture => captures.headD [] :: substitute tokens captures.tail

/-- The text of the template with the captures in it, as somebody would type it who knows what has
    been captured. -/
def CommandPattern.instantiate (pattern : CommandPattern) (captures : List Bytes) : Bytes :=
  unwords (substitute pattern.tokens captures)

-- the templates are written with one space between their tokens
example : ∀ pattern ∈ defaultCommandCatalog,
    unwords (CommandPatternMatcher.splitTokens pattern.templateText) = pattern.templateText := by
  decide +kernel

namespace CommandPatternMatcher

/-! ## One template -/

theorem matchTokens_literal (value word : Bytes) (tokens : List PatternToken) (input : List Bytes) :
    matchTokens (⟨.literal, value⟩ :: tokens) (word :: input)
      = if word ≠ value then none else matchTokens tokens input := rfl

theorem matchTokens_tail (name : Bytes) (tokens : List PatternToken) (input : List Bytes) :
    matchTokens (⟨.tailCapture, name⟩ :: tokens) input
      = if !tokens.isEmpty then none else some ([joinTail input], []) := by
  cases input <;> rfl

/-- A literal is matched by itself. With the two lemmas below this inverts a turn of the loop, for
    each kind of token; what follows about `matchTokens` is by induction on the template with one of
    the three in each case. -/
theorem matchTokens_literal_some {value : Bytes} {tokens : List PatternToken} {input : List Bytes}
    {out : List Bytes × List Bytes}
    (h : matchTokens (⟨.literal, value⟩ :: tokens) input = some out) :
    ∃ rest, input = value :: rest ∧ matchTokens tokens rest = some out := by
  cases input with
  | nil => cases h
  | cons word input =>
    rw [matchTokens_literal] at h
    split at h
    · cases h
    next hword => exact ⟨input, by rw [not_not.mp hword], h⟩

theorem matchTokens_capture_some {name : Bytes} {tokens : List PatternToken}
    {input captures left : List Bytes}
    (h : matchTokens (⟨.capture, name⟩ :: tokens) input = some (captures, left)) :
    ∃ word rest others, input = word :: rest ∧ captures = word :: others ∧
      matchTokens tokens rest = some (others, left) := by
  cases input with
  | nil => cases h
  | cons word input =>
    rw [matchTokens] at h
    dsimp only at h
    split at h
    · cases h
    next others left' hmatch =>
      obtain ⟨rfl, rfl⟩ := Prod.mk.inj (Option.some.inj h)
      exact ⟨word, input, others, rfl, rfl, hmatch⟩

/-- A tail is the last token, and takes all that is left: nothing remains for `try_match` to
    complain about. -/
theorem matchTokens_tail_some {name : Bytes} {tokens : List PatternToken}
    {input captures left : List Bytes}
    (h : matchTokens (⟨.tailCapture, name⟩ :: tokens) input = some (captures, left)) :
    tokens = [] ∧ captures = [joinTail input] ∧ left = [] := by
  rw [matchTokens_tail] at h
  split at h
  · cases h
  next hlast =>
    obtain ⟨rfl, rfl⟩ := Prod.mk.inj (Option.some.inj h)
    exact ⟨by simpa using hlast, rfl, rfl⟩

theorem words_of_fills {tokens : List PatternToken} {words captures : List Bytes}
    (h : Fills tokens words captures)
    (hliterals : ∀ token ∈ tokens, token.kind = .literal → IsWord token.value) :
    ∀ w ∈ words, IsWord w := by
  induction h with
  | nil => simp
  | literal _ ih =>
    rw [List.forall_mem_cons]
    exact ⟨hliterals _ List.mem_cons_self rfl,
      ih fun token htoken => hliterals token (List.mem_cons_of_mem _ htoken)⟩
  | capture hword _ ih =>
    rw [List.forall_mem_cons]
    exact ⟨hword, ih fun token htoken => hliterals token (List.mem_cons_of_mem _ htoken)⟩
  | tail hwords => exact hwords

/-- Completeness of the loop: what fills a template is matched, with the captures that it was filled
    with. -/
theorem matchTokens_fills {tokens : List PatternToken} {words captures : List Bytes}
    (h : Fills tokens words captures) : matchTokens tokens words = some (captures, []) := by
  induction h with
  | nil => rfl
  | literal _ ih => rw [matchTokens_literal, if_neg (not_not.mpr rfl), ih]
  | capture _ _ ih => simp [matchTokens, ih]
  | tail hwords =>
    -- the loop writes the tail as `Fills` has it
    rw [matchTokens_tail, joinTail_eq hwords]
    rfl

/-- Without input a template has to be at its tail, which then captures the empty text. A literal or
    a capture wants a token, be it an empty one. -/
theorem matchTokens_nil {tokens : List PatternToken} {captures left : List Bytes}
    (h : matchTokens tokens [] = some (captures, left)) :
    tokens = [] ∧ captures = [] ∨
      ∃ name, tokens = [⟨.tailCapture, name⟩] ∧ captures = [[]] := by
  cases tokens with
  | nil =>
    refine .inl ⟨rfl, ?_⟩
    have hsome := Option.some.inj h
    exact (Prod.mk.inj hsome).1.symm
  | cons token tokens =>
    obtain ⟨kind, name⟩ := token
    cases kind with
    | literal => cases h
    | capture => cases h
    | tailCapture =>
      obtain ⟨rfl, rfl, -⟩ := matchTokens_tail_some h
      exact .inr ⟨name, rfl, rfl⟩

theorem substitute_ne_nil {tokens : List PatternToken} (h : tokens ≠ []) (captures : List Bytes) :
    substitute tokens captures ≠ [] := by
  obtain ⟨token, tokens, rfl⟩ := List.exists_cons_of_ne_nil h
  rw [substitute]
  split <;> exact List.cons_ne_nil _ _

theorem splitTokens_unwords_cons {word : Bytes} (hword : IsWord word) {words : List Bytes}
    (hwords : words ≠ []) :
    splitTokens (unwords (word :: words)) = word :: splitTokens (unwords words) := by
  obtain ⟨next, words, rfl⟩ := List.exists_cons_of_ne_nil hwords
  rw [unwords_cons_cons, splitTokens_word hword]

/-- A line that is written again begins with the word of its first token, and the rest of it is what
    the rest of the template makes. At the end of the template there is no rest, and `unwords` puts
    no space; this is the one reason for the two cases. -/
theorem splitTokens_rewritten {word : Bytes} (hword : IsWord word) {tokens : List PatternToken}
    {input captures : List Bytes} (hmatch : matchTokens tokens input = some (captures, []))
    (hagain : tokens ≠ [] → matchTokens tokens (splitTokens (unwords (substitute tokens captures)))
      = some (captures, [])) :
    ∃ rest, splitTokens (unwords (word :: substitute tokens captures)) = word :: rest ∧
      matchTokens tokens rest = some (captures, []) := by
  cases tokens with
  | nil =>
    obtain ⟨rfl, rfl⟩ := Prod.mk.inj (Option.some.inj hmatch)
    refine ⟨[], ?_, rfl⟩
    rw [substitute, unwords_singleton, splitTokens_spaceless hword.2]
  | cons next tokens =>
    have hne : next :: tokens ≠ [] := List.cons_ne_nil _ _
    exact ⟨_, splitTokens_unwords_cons hword (substitute_ne_nil hne captures), hagain hne⟩

/-- **The captures of a line, put into the template, are captured again.** The line need not be the
    one it was: runs of spaces are gone. What makes this delicate is the empty token at the end of a
    line, which a capture may take; the line that is written again then ends in a space too, and the
    same token is found again. -/
theorem matchTokens_again {tokens : List PatternToken} (hne : tokens ≠ [])
    (hliterals : ∀ token ∈ tokens, token.kind = .literal → IsWord token.value)
    {input captures : List Bytes} (hinput : TokenList input)
    (h : matchTokens tokens input = some (captures, [])) :
    matchTokens tokens (splitTokens (unwords (substitute tokens captures)))
      = some (captures, []) := by
  -- along the template: each token writes the word that it has matched
  induction tokens generalizing input captures with
  | nil => exact absurd rfl hne
  | cons token tokens ih =>
    obtain ⟨kind, name⟩ := token
    have hrest := fun token htoken => hliterals token (List.mem_cons_of_mem _ htoken)
    cases kind with
    | literal =>
      obtain ⟨input, rfl, hmatch⟩ := matchTokens_literal_some h
      obtain ⟨rest, hsplit, hagain⟩ := splitTokens_rewritten (hliterals _ List.mem_cons_self rfl)
        hmatch fun hne => ih hne hrest hinput.tail hmatch
      rw [substitute]
      dsimp only
      rw [hsplit, matchTokens_literal, if_neg (not_not.mpr rfl)]
      exact hagain
    | capture =>
      obtain ⟨word, input, others, rfl, rfl, hmatch⟩ := matchTokens_capture_some h
      rw [substitute]
      dsimp only [List.headD_cons, List.tail_cons]
      by_cases hword : IsWord word
      · obtain ⟨rest, hsplit, hagain⟩ := splitTokens_rewritten hword hmatch
          fun hne => ih hne hrest hinput.tail hmatch
        rw [hsplit, matchTokens]
        dsimp only
        rw [hagain]
      · -- an empty capture is the last token of the line
        have hempty : word = [] := by
          by_contra hne
          exact hword ⟨hne, hinput.spaceless word List.mem_cons_self⟩
        cases input with
        | cons next input => exact absurd hinput.head_isWord hword
        | nil =>
          subst hempty
          rcases matchTokens_nil hmatch with ⟨rfl, rfl⟩ | ⟨name, rfl, rfl⟩ <;> rfl
    | tailCapture =>
      obtain ⟨rfl, rfl, -⟩ := matchTokens_tail_some h
      show matchTokens _ (splitTokens (unwords [joinTail input])) = _
      rw [unwords_singleton, matchTokens_tail, joinTail_again hinput]
      rfl

/-- A template matches if the loop comes to its end with no token left over. -/
theorem tryMatch_eq_some_iff {pattern : CommandPattern} {tokens : List Bytes}
    {found : CommandMatch} :
    tryMatch pattern tokens = some found ↔
      matchTokens pattern.tokens tokens = some (found.captures, []) ∧
        pattern.commandName = found.commandName := by
  unfold tryMatch
  split
  next captures hmatch =>
    rw [hmatch]
    constructor
    · intro h
      obtain rfl := Option.some.inj h
      exact ⟨rfl, rfl⟩
    · rintro ⟨hcaptures, hname⟩
      rw [(Prod.mk.inj (Option.some.inj hcaptures)).1, hname]
  next hnone =>
    constructor
    · intro h
      cases h
    · rintro ⟨hmatch, -⟩
      exact absurd hmatch (hnone _)

/-! ## The catalog -/

/-- A template begins with a literal, and its literals are words. `compile_pattern` does not ask for
    either; both hold for what `default_command_catalog` lists. -/
structure WellFormed (pattern : CommandPattern) : Prop where
  verb : ∃ verb, pattern.tokens.head? = some ⟨.literal, verb⟩
  literals : ∀ token ∈ pattern.tokens, token.kind = .literal → IsWord token.value

/-- By looking at the templates one by one. The verb is stated with an existential, which is not
    decided, so the kind of the head is looked at first. -/
theorem catalog_wellFormed {pattern : CommandPattern} (h : pattern ∈ defaultCommandCatalog) :
    WellFormed pattern := by
  have hall : ∀ pattern ∈ defaultCommandCatalog,
      pattern.tokens.head?.map PatternToken.kind = some .literal ∧
      ∀ token ∈ pattern.tokens, token.kind = .literal → IsWord token.value := by
    decide +kernel
  obtain ⟨hhead, hliterals⟩ := hall pattern h
  obtain ⟨⟨kind, verb⟩, hverb, hkind⟩ := Option.map_eq_some_iff.mp hhead
  exact ⟨⟨verb, by rw [hverb, ← hkind]⟩, hliterals⟩

/-- No two templates begin with the same word. -/
theorem catalog_verb_inj {p q : CommandPattern} (hp : p ∈ defaultCommandCatalog)
    (hq : q ∈ defaultCommandCatalog) (h : p.tokens.head? = q.tokens.head?) : p = q := by
  have hall : ∀ p ∈ defaultCommandCatalog, ∀ q ∈ defaultCommandCatalog,
      p.tokens.head? = q.tokens.head? → p = q := by
    decide +kernel
  exact hall p hp q hq h

/-- Nor do two have the same name, so the name that a match carries says which template it was. -/
theorem catalog_name_inj {p q : CommandPattern} (hp : p ∈ defaultCommandCatalog)
    (hq : q ∈ defaultCommandCatalog) (h : p.commandName = q.commandName) : p = q := by
  have hall : ∀ p ∈ defaultCommandCatalog, ∀ q ∈ defaultCommandCatalog,
      p.commandName = q.commandName → p = q := by
    decide +kernel
  exact hall p hp q hq h

theorem head_of_tryMatch {pattern : CommandPattern} (h : WellFormed pattern) {tokens : List Bytes}
    {found : CommandMatch} (hmatch : tryMatch pattern tokens = some found) :
    ∃ verb rest, tokens = verb :: rest ∧ pattern.tokens.head? = some ⟨.literal, verb⟩ := by
  obtain ⟨verb, hverb⟩ := h.verb
  obtain ⟨rest, hrest⟩ := List.head?_eq_some_iff.mp hverb
  have hloop := (tryMatch_eq_some_iff.mp hmatch).1
  rw [hrest] at hloop
  obtain ⟨words, rfl, -⟩ := matchTokens_literal_some hloop
  exact ⟨verb, words, rfl, hverb⟩

/-- **At most one template matches.** The first token of the line is the verb of either, and a verb
    belongs to one template. -/
theorem match_unique {p q : CommandPattern} (hp : p ∈ defaultCommandCatalog)
    (hq : q ∈ defaultCommandCatalog) {tokens : List Bytes} {found other : CommandMatch}
    (hfound : tryMatch p tokens = some found) (hother : tryMatch q tokens = some other) :
    p = q := by
  obtain ⟨verb, rest, htokens, hverb⟩ := head_of_tryMatch (catalog_wellFormed hp) hfound
  obtain ⟨verb', rest', htokens', hverb'⟩ := head_of_tryMatch (catalog_wellFormed hq) hother
  obtain ⟨rfl, -⟩ := List.cons.inj (htokens.symm.trans htokens')
  exact catalog_verb_inj hp hq (hverb.trans hverb'.symm)

/-- So the templates can be looked through in any order: `match` stops at the first that matches,
    and there is no other. -/
theorem match_eq_some_iff {patterns : List CommandPattern}
    (hperm : patterns.Perm defaultCommandCatalog)
    {line : Bytes} {found : CommandMatch} :
    match_ patterns line = some found ↔
      ∃ pattern ∈ defaultCommandCatalog, tryMatch pattern (splitTokens line) = some found := by
  unfold match_
  dsimp only
  constructor
  · intro h
    obtain ⟨pattern, hpattern, hmatch⟩ := List.exists_of_findSome?_eq_some h
    exact ⟨pattern, hperm.mem_iff.mp hpattern, hmatch⟩
  · rintro ⟨pattern, hpattern, hmatch⟩
    cases hfind : patterns.findSome? fun pattern => tryMatch pattern (splitTokens line) with
    | none =>
      have hnone := List.findSome?_eq_none_iff.mp hfind pattern (hperm.mem_iff.mpr hpattern)
      rw [hmatch] at hnone
      cases hnone
    | some other =>
      obtain ⟨q, hq, hother⟩ := List.exists_of_findSome?_eq_some hfind
      obtain rfl := match_unique hpattern (hperm.mem_iff.mp hq) hmatch hother
      exact hother.symm.trans hmatch

/-- The order in which `add_pattern` is called does not matter. -/
theorem match_perm {patterns : List CommandPattern} (hperm : patterns.Perm defaultCommandCatalog)
    (line : Bytes) : match_ patterns line = match_ defaultCommandCatalog line := by
  apply Option.ext
  intro found
  rw [match_eq_some_iff hperm, match_eq_some_iff (List.Perm.refl _)]

end CommandPatternMatcher

open CommandPatternMatcher in
/-- **The matcher is sound and complete for the catalog.** A line made of a template and words for
    its captures is matched with these captures. The captures of a matched line, put into the
    template, are captured again. At most one template matches, in whatever order they are
    registered. -/
theorem matcher_sound_and_complete :
    (∀ pattern ∈ defaultCommandCatalog, ∀ words captures line,
      Fills pattern.tokens words captures → Spaced words line →
        match_ defaultCommandCatalog line = some ⟨pattern.commandName, captures⟩) ∧
    (∀ line found, match_ defaultCommandCatalog line = some found →
      ∃ pattern ∈ defaultCommandCatalog, pattern.commandName = found.commandName ∧
        (∀ other ∈ defaultCommandCatalog, other.commandName = found.commandName → other = pattern) ∧
        tryMatch pattern (splitTokens (pattern.instantiate found.captures)) = some found) ∧
    (∀ line, ∀ p ∈ defaultCommandCatalog, ∀ q ∈ defaultCommandCatalog,
      (tryMatch p (splitTokens line)).isSome → (tryMatch q (splitTokens line)).isSome → p = q) ∧
    ∀ line patterns, patterns.Perm defaultCommandCatalog →
      match_ patterns line = match_ defaultCommandCatalog line := by
  refine ⟨?_, ?_, ?_, fun line patterns hperm => match_perm hperm line⟩
  · intro pattern hpattern words captures line hfills hline
    have hwords := words_of_fills hfills (catalog_wellFormed hpattern).literals
    rw [match_eq_some_iff (List.Perm.refl _)]
    refine ⟨pattern, hpattern, ?_⟩
    rw [splitTokens_spaced hline hwords, tryMatch_eq_some_iff]
    exact ⟨matchTokens_fills hfills, rfl⟩
  · intro line found hfound
    obtain ⟨pattern, hpattern, hmatch⟩ := (match_eq_some_iff (List.Perm.refl _)).mp hfound
    obtain ⟨hloop, hname⟩ := tryMatch_eq_some_iff.mp hmatch
    obtain ⟨verb, hverb⟩ := (catalog_wellFormed hpattern).verb
    have hne : pattern.tokens ≠ [] := by
      intro hnil
      rw [hnil] at hverb
      cases hverb
    refine ⟨pattern, hpattern, hname, fun other hother hsame =>
      catalog_name_inj hother hpattern (hsame.trans hname.symm),
      tryMatch_eq_some_iff.mpr ⟨?_, hname⟩⟩
    exact matchTokens_again hne (catalog_wellFormed hpattern).literals (splitTokens_tokenList line)
      hloop
  · intro line p hp q hq hmatched hmatched'
    obtain ⟨found, hfound⟩ := Option.isSome_iff_exists.mp hmatched
    obtain ⟨other, hother⟩ := Option.isSome_iff_exists.mp hmatched'
    exact match_unique hp hq hfound hother

/-- The spaces before the target and inside the message are more than one, and the captures are as
    if they were not. -/
theorem send_line_matched :
    CommandPatternMatcher.match_ defaultCommandCatalog (bytes "/send  bob hi   there")
      = some ⟨bytes "send", [bytes "bob", bytes "hi there"]⟩ := by
  have hfills : Fills [⟨.literal, bytes "/send"⟩, ⟨.capture, bytes "chat"⟩,
      ⟨.tailCapture, bytes "message."⟩] [bytes "/send", bytes "bob", bytes "hi", bytes "there"]
      [bytes "bob", unwords [bytes "hi", bytes "there"]] :=
    .literal (.capture (by decide) (.tail (by decide)))
  exact matcher_sound_and_complete.1
    (CommandPatternMatcher.compilePattern (bytes "send")
      (bytes "/send \x7bchat\x7d \x7bmessage...\x7d")) (by decide +kernel) _ _ _ hfills
    (.cons _ 1 (.cons _ 0 (.cons _ 2 (.last _))))

end Messenger
