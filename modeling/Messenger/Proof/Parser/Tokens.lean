import Mathlib.Data.List.Destutter
import Messenger.Lib.Fields
import Messenger.Model.Parser

/-!
# The tokens of a line

`split_tokens` cuts a line at spaces. Every token is a word, except that the last may be
empty (`TokenList`). The tail of a template is put together again from the tokens of the
text, with one space between them: that is the text with its leading spaces removed and
each run of spaces reduced to one (`joinTail_splitTokens`).

The last token is the difficulty of this file. `split_tokens` pushes what it has when the line
ends, also if that is nothing, so a line that ends in a space has an empty token at its end, and
only there. `TokenList` allows it, and joining keeps it, as a space at the end of the text.

The last theorem compares two loops of the source with one function on the text. Its induction is
on the text, with the token that is being read and the tail that has been joined so far as
parameters (`foldl_splitLoop`); for that the reduction of spaces is needed byte by byte, as
`collapseAfter`.
-/

set_option autoImplicit false

namespace Messenger

open Messenger.Lib

/-! ## Words and lines -/

/-- What stands between two spaces of a line. A tab or a line break may be part of a word:
    `split_tokens` knows the space only, unlike the stream that takes a line apart when no template
    matches. -/
def IsWord (word : Bytes) : Prop := word ≠ [] ∧ space ∉ word

instance (word : Bytes) : Decidable (IsWord word) := inferInstanceAs (Decidable (_ ∧ _))

/-- The words of a line, with one space between them. This is how `try_match` writes a tail, so it
    is the normal form of a line: cut and joined again it stays as it is. -/
def unwords (words : List Bytes) : Bytes := List.intercalate [space] words

theorem unwords_singleton (word : Bytes) : unwords [word] = word := by
  simp [unwords]

theorem unwords_cons_cons (word next : Bytes) (words : List Bytes) :
    unwords (word :: next :: words) = word ++ space :: unwords (next :: words) := by
  unfold unwords
  rw [List.intercalate_cons_cons, List.append_assoc]
  rfl

/-- Only the first word takes part when something is put in front: the loop that joins a tail has
    its accumulator there. -/
theorem unwords_append_cons (start word : Bytes) (words : List Bytes) :
    unwords ((start ++ word) :: words) = start ++ unwords (word :: words) := by
  cases words with
  | nil => rw [unwords_singleton, unwords_singleton]
  | cons next words => rw [unwords_cons_cons, unwords_cons_cons, List.append_assoc]

/-- The words, with one or more spaces between any two. These are the lines that the matcher cannot
    tell from `unwords`; a line may also begin with spaces, which `splitTokens_spaces` deals with,
    and end with one, which makes an empty last token. -/
inductive Spaced : List Bytes → Bytes → Prop
  | last (word : Bytes) : Spaced [word] word
  | cons (word : Bytes) (n : Nat) {words : List Bytes} {line : Bytes} :
    Spaced words line → Spaced (word :: words) (word ++ (List.replicate (n + 1) space ++ line))

/-- Tokens as they come from a line: none has a space in it, and all but the last are words. The
    last one may be empty, as `split_tokens` pushes what it has at the end of the line without
    looking; so `"/exit "` has two tokens and is not matched by `/exit`. -/
structure TokenList (tokens : List Bytes) : Prop where
  words : ∀ w ∈ tokens.dropLast, IsWord w
  spaceless : ∀ w ∈ tokens, space ∉ w

theorem TokenList.of_words {words : List Bytes} (h : ∀ w ∈ words, IsWord w) : TokenList words :=
  ⟨fun w hw => h w (List.dropLast_subset words hw), fun w hw => (h w hw).2⟩

theorem TokenList.tail {word : Bytes} {tokens : List Bytes} (h : TokenList (word :: tokens)) :
    TokenList tokens := by
  refine ⟨fun w hw => h.words w ?_, fun w hw => h.spaceless w (List.mem_cons_of_mem word hw)⟩
  cases tokens with
  | nil => cases hw
  | cons next tokens => exact List.mem_cons_of_mem word hw

theorem TokenList.head_isWord {word next : Bytes} {tokens : List Bytes}
    (h : TokenList (word :: next :: tokens)) : IsWord word :=
  h.words word List.mem_cons_self

namespace CommandPatternMatcher

/-! ## `split_tokens` -/

/-- A space ends the token before it. Without `hcur` it would be skipped, which is the other branch
    of the loop. -/
theorem splitLoop_space {cur : Bytes} (hcur : cur ≠ []) (rest : Bytes) :
    splitLoop cur (space :: rest) = cur :: splitLoop [] rest := by
  have hnonempty : (!cur.isEmpty) = true := by simp [hcur]
  rw [splitLoop, if_pos rfl, if_pos hnonempty]

theorem splitLoop_append {word : Bytes} (hword : space ∉ word) (cur rest : Bytes) :
    splitLoop cur (word ++ rest) = splitLoop (cur ++ word) rest := by
  induction word generalizing cur with
  | nil => rw [List.nil_append, List.append_nil]
  | cons b word ih =>
    rw [List.mem_cons, not_or] at hword
    rw [List.cons_append, splitLoop, if_neg (Ne.symm hword.1), ih hword.2, List.append_assoc]
    rfl

/-- What has been read of a token stays at its start: the loop only ever appends to `cur`, and hands
    it on at the next space. So a tab that got into a token cannot leave it (`splitTokens_tab`). -/
theorem splitLoop_first {cur : Bytes} (hcur : cur ≠ []) (text : Bytes) :
    ∃ more tokens, splitLoop cur text = (cur ++ more) :: tokens := by
  induction text generalizing cur with
  | nil => exact ⟨[], [], by rw [splitLoop, List.append_nil]⟩
  | cons c text ih =>
    by_cases hc : c = space
    · subst hc
      exact ⟨[], _, by rw [splitLoop_space hcur, List.append_nil]⟩
    · obtain ⟨more, tokens, hsplit⟩ := ih (List.append_ne_nil_of_left_ne_nil hcur [c])
      refine ⟨c :: more, tokens, ?_⟩
      rw [splitLoop, if_neg hc, hsplit, List.append_assoc]
      rfl

/-- The invariant of the loop: there is no space in `cur`. It gives the second field of `TokenList`
    at once; for the first, a token is handed on only by a space behind a token that is not empty.
    That the list is not empty is proved along with it, since `dropLast` of a longer list is asked
    for. -/
theorem splitLoop_tokenList {cur : Bytes} (hcur : space ∉ cur) (text : Bytes) :
    TokenList (splitLoop cur text) ∧ splitLoop cur text ≠ [] := by
  induction text generalizing cur with
  | nil => exact ⟨⟨by simp [splitLoop], by simpa [splitLoop] using hcur⟩, List.cons_ne_nil _ _⟩
  | cons c text ih =>
    have hrest := ih (List.not_mem_nil (a := space))
    by_cases hc : c = space
    · subst hc
      by_cases hempty : cur = []
      · -- a space with no token before it is skipped
        subst hempty
        exact hrest
      · rw [splitLoop_space hempty]
        obtain ⟨⟨hwords, hspaceless⟩, hne⟩ := hrest
        refine ⟨⟨?_, ?_⟩, List.cons_ne_nil _ _⟩
        · rw [List.dropLast_cons_of_ne_nil hne, List.forall_mem_cons]
          exact ⟨⟨hempty, hcur⟩, hwords⟩
        · rw [List.forall_mem_cons]
          exact ⟨hcur, hspaceless⟩
    · rw [splitLoop, if_neg hc]
      apply ih
      rw [List.mem_append, List.mem_singleton, not_or]
      exact ⟨hcur, Ne.symm hc⟩

theorem splitTokens_tokenList (text : Bytes) : TokenList (splitTokens text) :=
  (splitLoop_tokenList List.not_mem_nil text).1

theorem splitTokens_spaceless {word : Bytes} (hword : space ∉ word) :
    splitTokens word = [word] := by
  have hloop := splitLoop_append hword [] []
  rw [List.append_nil, List.nil_append] at hloop
  exact hloop

theorem splitTokens_spaces (n : Nat) (text : Bytes) :
    splitTokens (List.replicate n space ++ text) = splitTokens text := by
  induction n with
  | zero => rfl
  | succ n ih => exact ih

theorem splitTokens_word {word : Bytes} (hword : IsWord word) (text : Bytes) :
    splitTokens (word ++ space :: text) = word :: splitTokens text := by
  unfold splitTokens
  rw [splitLoop_append hword.2, List.nil_append, splitLoop_space hword.1]

/-- Cutting undoes joining, for all that comes from a line: also if the last token is empty, as the
    line then ends in a space. -/
theorem splitTokens_unwords {word : Bytes} {words : List Bytes} (h : TokenList (word :: words)) :
    splitTokens (unwords (word :: words)) = word :: words := by
  induction words generalizing word with
  | nil => rw [unwords_singleton, splitTokens_spaceless (h.spaceless word List.mem_cons_self)]
  | cons next words ih => rw [unwords_cons_cons, splitTokens_word h.head_isWord, ih h.tail]

theorem splitTokens_spaced {words : List Bytes} {line : Bytes} (hline : Spaced words line)
    (hwords : ∀ w ∈ words, IsWord w) : splitTokens line = words := by
  induction hline with
  | last word => exact splitTokens_spaceless (hwords word List.mem_cons_self).2
  | cons word n _ ih =>
    rw [List.replicate_succ, List.cons_append, splitTokens_word (hwords word List.mem_cons_self),
      splitTokens_spaces, ih fun w hw => hwords w (List.mem_cons_of_mem word hw)]

/-! ## The tail of a template -/

/-- The tail gets its tokens back with one space between them. The first of them must not be empty:
    the loop puts a space where something has been written before, and an empty token leaves nothing
    to see. -/
theorem joinTail_cons {word : Bytes} (hword : word ≠ []) (words : List Bytes) :
    joinTail (word :: words) = unwords (word :: words) := by
  -- once something has been written, every token comes with a space before it
  have hloop : ∀ (words : List Bytes) (tail : Bytes), tail ≠ [] →
      words.foldl (fun tail token => (if !tail.isEmpty then tail ++ [space] else tail) ++ token)
        tail
        = unwords (tail :: words) := by
    intro words
    induction words with
    | nil =>
      intro tail _
      exact (unwords_singleton tail).symm
    | cons word words ih =>
      intro tail htail
      have hnonempty : (!tail.isEmpty) = true := by simp [htail]
      rw [List.foldl_cons, if_pos hnonempty, ih _ (by simp), unwords_append_cons, List.append_assoc,
        unwords_cons_cons]
      rfl
  exact hloop words word hword

theorem joinTail_eq {words : List Bytes} (hwords : ∀ w ∈ words, IsWord w) :
    joinTail words = unwords words := by
  cases words with
  | nil => rfl
  | cons word words => exact joinTail_cons (hwords word List.mem_cons_self).1 words

/-- A tail that is cut again is put together as it was. An empty token is the case that needs care,
    and it is possible only in the last place, where it leaves a space at the end that the second
    cut finds again. -/
theorem joinTail_again {tokens : List Bytes} (h : TokenList tokens) :
    joinTail (splitTokens (joinTail tokens)) = joinTail tokens := by
  cases tokens with
  | nil => rfl
  | cons word words =>
    by_cases hword : word = []
    · -- only the last token may be empty
      cases words with
      | nil =>
        subst hword
        rfl
      | cons next words => exact absurd hword h.head_isWord.1
    · rw [joinTail_cons hword, splitTokens_unwords h, joinTail_cons hword]

end CommandPatternMatcher

/-! ## Runs of spaces -/

/-- Leading spaces removed, and of every other run of spaces only one kept. A space at the end is a
    run like any other, so one space stays there. -/
def collapseSpaces (text : Bytes) : Bytes :=
  (text.dropWhile fun b => b = space).destutter fun a b => ¬(a = space ∧ b = space)

theorem collapseSpaces_length (text : Bytes) : (collapseSpaces text).length ≤ text.length :=
  ((List.destutter_sublist ..).trans (List.dropWhile_sublist _)).length_le

/-- The same, byte after byte: a space is left out after a space. In this form it runs along with
    the loop of `split_tokens`, which `destutter` does not: it looks at the byte before the one it
    decides about. -/
def collapseAfter (before : UInt8) : Bytes → Bytes
  | [] => []
  | b :: text =>
    if before = space ∧ b = space then collapseAfter b text else b :: collapseAfter b text

theorem collapseAfter_keep {before b : UInt8} (h : ¬(before = space ∧ b = space)) (text : Bytes) :
    collapseAfter before (b :: text) = b :: collapseAfter b text := if_neg h

theorem destutter'_space (a : UInt8) (text : Bytes) :
    text.destutter' (fun a b => ¬(a = space ∧ b = space)) a = a :: collapseAfter a text := by
  induction text generalizing a with
  | nil => rfl
  | cons b text ih =>
    rw [List.destutter', collapseAfter]
    by_cases hspaces : a = space ∧ b = space
    · rw [if_neg (not_not.mpr hspaces), if_pos hspaces, ih, hspaces.1, hspaces.2]
    · rw [if_pos hspaces, if_neg hspaces, ih]

/-- At the start the text is as it would be after a space, and that takes the leading spaces away.
    So no case of its own is needed for them in what follows. -/
theorem collapseSpaces_eq (text : Bytes) : collapseSpaces text = collapseAfter space text := by
  induction text with
  | nil => rfl
  | cons b text ih =>
    rw [collapseAfter]
    by_cases hb : b = space
    · subst hb
      rw [if_pos ⟨rfl, rfl⟩, ← ih]
      rfl
    · rw [if_neg fun h => hb h.2, ← destutter'_space]
      unfold collapseSpaces
      rw [List.dropWhile_cons_of_neg (by simpa using hb)]
      rfl

/-- Where spaces separate, leaving some of them out does not change what they separate. `word` is
    the field that is being read, of which `before` is the last byte; right after a space it is
    empty. -/
theorem fields_collapseAfter {p : UInt8 → Bool} (hspace : p space = true) (text : Bytes)
    {before : UInt8} {word : Bytes} (hword : before = space → word = []) :
    fields p (word ++ collapseAfter before text) = fields p (word ++ text) := by
  induction text generalizing before word with
  | nil => rfl
  | cons b text ih =>
    have hstart : fields p (collapseAfter space text) = fields p text := by
      have hnil := ih fun (_ : space = space) => (rfl : ([] : Bytes) = [])
      rwa [List.nil_append, List.nil_append] at hnil
    by_cases hb : b = space
    · subst hb
      -- the only byte that is left out; it separates nothing, as no field has begun
      by_cases hbefore : before = space
      · rw [collapseAfter, if_pos ⟨hbefore, rfl⟩, hword hbefore, List.nil_append, List.nil_append,
          fields_cons hspace, hstart]
      · rw [collapseAfter_keep fun h => hbefore h.1, fields_append_cons _ _ hspace,
          fields_append_cons _ _ hspace, hstart]
    · rw [collapseAfter_keep fun h => hb h.2, List.append_cons, List.append_cons word b text]
      exact ih fun h => absurd h hb

theorem fields_collapseSpaces {p : UInt8 → Bool} (hspace : p space = true) (text : Bytes) :
    fields p (collapseSpaces text) = fields p text := by
  have hnil := fields_collapseAfter hspace text fun (_ : space = space) => (rfl : ([] : Bytes) = [])
  rw [collapseSpaces_eq]
  exact hnil

theorem collapseSpaces_space (text : Bytes) :
    collapseSpaces (space :: text) = collapseSpaces text := rfl

/-- Nothing is changed exactly if there is no space at the start and no two are adjacent. A text
    with a space at the start gets shorter, which is why it cannot come out as it was. -/
theorem collapseSpaces_eq_self_iff (text : Bytes) :
    collapseSpaces text = text ↔
      text.head? ≠ some space ∧ text.IsChain fun a b => ¬(a = space ∧ b = space) := by
  cases text with
  | nil => simp [collapseSpaces]
  | cons b text =>
    by_cases hb : b = space
    · subst hb
      constructor
      · intro h
        have hshorter := collapseSpaces_length text
        rw [collapseSpaces_space] at h
        rw [h, List.length_cons] at hshorter
        omega
      · intro h
        exact absurd rfl h.1
    · have hstart : (b :: text).dropWhile (fun b => b = space) = b :: text :=
        List.dropWhile_cons_of_neg (by simpa using hb)
      unfold collapseSpaces
      rw [hstart, List.destutter_eq_self_iff]
      simp [hb]

namespace CommandPatternMatcher

/-- What the tail is, when the loop of `split_tokens` is in the token `cur` and `joined` has been
    put together. The two loops of the source, one that cuts and one that joins, are here run at
    once; the statement is about any state of both, and the text that is left is collapsed after the
    last byte of `cur`, or as after a space if `cur` is empty. -/
theorem foldl_splitLoop (text : Bytes) {cur : Bytes} (hcur : space ∉ cur) (joined : Bytes) :
    (splitLoop cur text).foldl
        (fun tail token => (if !tail.isEmpty then tail ++ [space] else tail) ++ token) joined
      = (if !joined.isEmpty then joined ++ [space] else joined)
        ++ (cur ++ collapseAfter (cur.getLastD space) text) := by
  induction text generalizing cur joined with
  | nil => simp [splitLoop, collapseAfter]
  | cons c text ih =>
    by_cases hc : c = space
    · subst hc
      by_cases hempty : cur = []
      · subst hempty
        exact ih List.not_mem_nil joined
      · -- the first space after a token is kept: it is the one that `joinTail` puts back
        have hlast : cur.getLastD space ≠ space := by
          intro h
          apply hcur
          rw [List.getLastD_eq_getLast?, List.getLast?_eq_some_getLast hempty,
            Option.getD_some] at h
          exact h ▸ List.getLast_mem hempty
        have hnonempty : (!((if !joined.isEmpty then joined ++ [space] else joined) ++ cur).isEmpty)
            = true := by
          simp [hempty]
        rw [splitLoop_space hempty, List.foldl_cons, ih List.not_mem_nil,
          collapseAfter_keep fun h => hlast h.1, if_pos hnonempty]
        simp
    · have hmore : space ∉ cur ++ [c] := by
        rw [List.mem_append, List.mem_singleton, not_or]
        exact ⟨hcur, Ne.symm hc⟩
      rw [splitLoop, if_neg hc, ih hmore, collapseAfter_keep fun h => hc h.2]
      simp

/-- **The tail of a text** is the text with its runs of spaces reduced. This is what happens to what
    a user types behind the target of a `/send` or a `/pmess`. -/
theorem joinTail_splitTokens (text : Bytes) :
    joinTail (splitTokens text) = collapseSpaces text := by
  rw [collapseSpaces_eq]
  exact foldl_splitLoop text List.not_mem_nil []

end CommandPatternMatcher

end Messenger
