import Messenger.Proof.Parser.Struct
import Messenger.Proof.Parser.Text
import Messenger.Proof.Wire.Mutation

/-!
# A typed line becomes a message

A line of fewer than `2 ^ 30` bytes is too short to make a message too large. What is left is
the byte that counts the metadata entries. A template has at most five captures; the words of a
line that no template matches are as many as the user has typed, and each is an entry.
-/

set_option autoImplicit false

namespace Messenger

open Messenger.Lib CommandPatternMatcher

variable {line : Bytes}

theorem parse_text (now : UInt64) {c : UInt8} (hc : c ≠ 0x2F) (rest : Bytes)
    (hlength : (c :: rest).length < 2 ^ 30) :
    ∃ msg, Parser.parse now (c :: rest) = .ok msg ∧ msg.Built := by
  let m₀ : Message := { header := { type := .text, protocolVersion := 1, timestamp := now } }
  have hm₀ : m₀.Built := ⟨rfl, rfl, show 6 < 2 ^ 32 by decide⟩
  have hsize : compactSize m₀.metadata (c :: rest) < 2 ^ 32 := by
    unfold compactSize
    simp only [m₀, List.map_nil, List.sum_nil]
    omega
  obtain ⟨msg, hset, hmsg, -⟩ := setPayload_ok hm₀ hsize
  refine ⟨msg, ?_, hmsg⟩
  unfold Parser.parse
  dsimp only
  rw [if_neg hc]
  exact hset

/-- The words of a line that is not too long fit a message, if there are not too many. -/
theorem words_fit (now : UInt64) (name : Bytes) {args : List Bytes} (hcount : args.length < 255)
    (hlength : (args.map List.length).sum < 2 ^ 30) :
    ∃ msg, Parser.makeCommandFromStruct now ⟨name, args⟩ = .ok msg ∧ msg.Built := by
  have hsize := compactSize_args_le name args
  obtain ⟨msg, hmake, hmsg, -⟩ := makeCommandFromStruct_ok now
    (show (ParsedCommand.mk name args).args.length < 255 from hcount) (by omega)
  exact ⟨msg, hmake, hmsg⟩

/-- In a message that is valid the count of the entries has not wrapped. One entry is the code. -/
theorem count_of_made {now : UInt64} {cmd : ParsedCommand} {msg : Message}
    (hmake : Parser.makeCommandFromStruct now cmd = .ok msg) (hvalid : msg.validate = true) :
    cmd.args.length < 255 := by
  have hmetadata : msg.metadata.length = cmd.args.length + 1 :=
    congrArg List.length (makeCommandFromStruct_inv hmake).1
  have hmetalen : msg.metalen.toNat = msg.metadata.length := by
    unfold Message.validate at hvalid
    rw [Bool.and_eq_true, beq_iff_eq, beq_iff_eq] at hvalid
    exact hvalid.2
  have hbyte := msg.metalen.toNat_lt
  omega

/-- A command that no template matches: its words are its name and its arguments. -/
theorem parse_words {rest : Bytes} (now : UInt64)
    (hnone : match_ defaultCommandCatalog (0x2F :: rest) = none) {word : Bytes} {args : List Bytes}
    (hwords : Parser.streamTokens (0x2F :: rest) = word :: args) :
    ∃ name, Parser.parse now (0x2F :: rest) = Parser.makeCommandFromStruct now ⟨name, args⟩ := by
  unfold Parser.parse Parser.parseLine Parser.parseWords
  rw [hnone, hwords]
  exact ⟨_, rfl⟩

/-- The slash is part of the first word, so there is one. -/
theorem streamTokens_slash (rest : Bytes) : Parser.streamTokens (0x2F :: rest) ≠ [] := by
  intro hempty
  have hpieces : ∀ piece ∈ (0x2F :: rest : Bytes).splitOnP Parser.isSpace, piece = [] := by
    intro piece hpiece
    have hdropped := List.filter_eq_nil_iff.mp hempty piece hpiece
    simpa using hdropped
  obtain ⟨first, others, hfirst⟩ :=
    List.exists_cons_of_ne_nil (List.splitOnP_ne_nil Parser.isSpace rest)
  rw [List.splitOnP_cons_eq_if_modifyHead, if_neg (by decide), hfirst,
    List.modifyHead_cons] at hpieces
  exact List.cons_ne_nil _ _ (hpieces _ List.mem_cons_self)

/-- For a command that no template matches, the number of its words decides. The first is the name,
    so 255 of them make 255 entries; with one more the byte that counts the entries wraps, and the
    constructor throws. -/
theorem parse_words_iff {rest : Bytes} (now : UInt64) (hlength : (0x2F :: rest).length < 2 ^ 30)
    (hnone : match_ defaultCommandCatalog (0x2F :: rest) = none) :
    (∃ msg, Parser.parse now (0x2F :: rest) = .ok msg ∧ msg.validate = true) ↔
      (Parser.streamTokens (0x2F :: rest)).length ≤ 255 := by
  obtain ⟨word, args, hwords⟩ := List.exists_cons_of_ne_nil (streamTokens_slash rest)
  obtain ⟨name, hparse⟩ := parse_words now hnone hwords
  have hbytes := sum_length_fields_le Parser.isSpace (0x2F :: rest)
  have hfields : fields Parser.isSpace (0x2F :: rest) = word :: args := hwords
  rw [hfields, List.map_cons, List.sum_cons] at hbytes
  rw [hparse, hwords, List.length_cons]
  constructor
  · rintro ⟨msg, hmake, hvalid⟩
    have hcount : args.length < 255 := count_of_made hmake hvalid
    omega
  · intro hcount
    obtain ⟨msg, hmake, hmsg⟩ := words_fit now name (show args.length < 255 by omega) (by omega)
    exact ⟨msg, hmake, hmsg.validate⟩

/-- **When a typed line becomes a message.** A line of fewer than `2 ^ 30` bytes does, unless it is
    a command that no template matches and has more than 255 words. -/
theorem parse_returns_iff (now : UInt64) (hlength : line.length < 2 ^ 30) :
    (∃ msg, Parser.parse now line = .ok msg ∧ msg.validate = true) ↔
      (line.head? = some 0x2F → match_ defaultCommandCatalog line = none →
        (Parser.streamTokens line).length ≤ 255) := by
  cases line with
  | nil => exact ⟨fun _ h => (by cases h), fun _ => ⟨{}, rfl, rfl⟩⟩
  | cons c rest =>
    by_cases hc : c = 0x2F
    · subst hc
      cases hmatch : match_ defaultCommandCatalog (0x2F :: rest) with
      | none => rw [parse_words_iff now hlength hmatch, List.head?_cons]; simp
      | some found =>
        obtain ⟨pattern, hpattern, hfound⟩ := (match_eq_some_iff (List.Perm.refl _)).mp hmatch
        obtain ⟨msg, hmake, hmsg, -⟩ := captures_fit hpattern hfound hlength now
        rw [← (parseLine_of_match hpattern hfound).2] at hmake
        exact ⟨fun _ _ h => (by cases h), fun _ => ⟨msg, hmake, hmsg.validate⟩⟩
    · obtain ⟨msg, hparse, hmsg⟩ := parse_text now hc rest hlength
      refine ⟨fun _ hslash => ?_, fun _ => ⟨msg, hparse, hmsg.validate⟩⟩
      exact absurd (Option.some.inj hslash) hc

/-- A command with an argument too many for its template, and few words. -/
theorem parse_login_with_two_names :
    ∃ msg, Parser.parse 0 (bytes "/login alice smith") = .ok msg ∧ msg.validate = true :=
  (parse_returns_iff 0 (by decide +kernel)).mpr fun _ _ => by decide +kernel

/-- `/x a a …`, with 255 arguments. -/
theorem long_command_throws :
    let line := bytes "/x" ++ (List.replicate 255 (bytes " a")).flatten
    line.length = 512 ∧ ¬∃ msg, Parser.parse 0 line = .ok msg ∧ msg.validate = true := by
  intro line
  have hlength : line.length = 512 := by decide +kernel
  refine ⟨hlength, ?_⟩
  have hnone : match_ defaultCommandCatalog line = none := by decide +kernel
  have hwords : (Parser.streamTokens line).length = 256 := by decide +kernel
  intro h
  have hcount := (parse_words_iff 0 (show line.length < 2 ^ 30 by rw [hlength]; decide) hnone).mp h
  have hmore : (Parser.streamTokens line).length ≤ 255 := hcount
  rw [hwords] at hmore
  exact absurd hmore (by decide)

end Messenger
