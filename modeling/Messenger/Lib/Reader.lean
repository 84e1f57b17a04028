import Mathlib.Data.List.Basic

/-!
# Offset readers and the grammars they recognise

A hand-written decoder walks an input with a running offset: each field is a bounds
check, a read at the offset, an advance. `Reader` is that shape, a state-passing
computation over the offset with the input held fixed. `Recognises Ok p G` is what it
means for such a decoder to be *exact* for a grammar `G`, a relation between values
and the token strings that spell them:

* it accepts only what `G` spells, and stops right after it (`sound`);
* it accepts everything `G` spells, whatever comes before and whatever follows
  (`complete`);
* when it fails, it fails in a way `Ok` allows (`fails`). A read outside the input
  is a failure like any other here, so an `Ok` that excludes it says that no such
  read happens.

The rules below follow the shape of the decoder: sequencing, a guard, a counted loop.
A proof about a decoder is then one rule for each line of it. What a format owes its
users comes from exactness alone: which inputs are accepted (`accepts_iff`), that no
spelling is a proper prefix of another (`spelling_unique`), and that a truncated
spelling is refused (`rejects_truncated`).
-/

set_option autoImplicit false

namespace Messenger.Lib

variable {τ ε α β : Type}

/-- A decoder over an input: from an offset to a value and the next offset. The input does not
    change, so it is an argument and not part of the state. -/
abbrev Reader (τ ε α : Type) := List τ → StateT Nat (Except ε) α

/-- `p`, started at any offset of any input, recognises exactly the grammar `G`. The input is split
    at the offset, so that what was read before plays no part. Soundness and completeness are stated
    about the same split, which is what makes them compose: where the first reader stops is where
    the second one starts. -/
structure Recognises (Ok : ε → Prop) (p : Reader τ ε α) (G : α → List τ → Prop) : Prop where
  sound : ∀ {before rest : List τ} {a : α} {off : Nat},
    (p (before ++ rest)).run before.length = .ok (a, off) →
      ∃ e t, rest = e ++ t ∧ G a e ∧ off = (before ++ e).length
  complete : ∀ (before t : List τ) {e : List τ} {a : α}, G a e →
    (p (before ++ (e ++ t))).run before.length = .ok (a, (before ++ e).length)
  fails : ∀ {before rest : List τ} {x : ε},
    (p (before ++ rest)).run before.length = .error x → Ok x

/-! ## Running a sequence of steps -/

section Run

variable {σ : Type}

@[simp] theorem ok_bind (a : α) (f : α → Except ε β) : (Except.ok a >>= f) = f a := rfl

@[simp] theorem error_bind (x : ε) (f : α → Except ε β) :
    (Except.error x >>= f) = .error x := rfl

/-- A sequence that has a result has one in both its parts. -/
theorem bind_ok_inv {x : Except ε α} {f : α → Except ε β} {b : β} (h : x >>= f = .ok b) :
    ∃ a, x = .ok a ∧ f a = .ok b := by
  cases x with
  | error e => cases h
  | ok a => exact ⟨a, rfl, h⟩

/-- A sequence fails with what its first part fails with, or its second, after a result of the
    first. -/
theorem bind_error_inv {x : Except ε α} {f : α → Except ε β} {e : ε} (h : x >>= f = .error e) :
    x = .error e ∨ ∃ a, x = .ok a ∧ f a = .error e := by
  cases x with
  | error e' =>
    cases h
    exact .inl rfl
  | ok a => exact .inr ⟨a, rfl, h⟩

@[simp] theorem pure_eq_ok (a : α) : (Pure.pure a : Except ε α) = .ok a := rfl

@[simp] theorem throw_eq_error (x : ε) : (throw x : Except ε α) = .error x := rfl

theorem run_bind_ok {p : StateT σ (Except ε) α} {f : α → StateT σ (Except ε) β} {s s' : σ}
    {a : α} (h : p.run s = .ok (a, s')) : (p >>= f).run s = (f a).run s' := by
  rw [StateT.run_bind, h, ok_bind]

theorem run_bind_error {p : StateT σ (Except ε) α} {f : α → StateT σ (Except ε) β} {s : σ}
    {x : ε} (h : p.run s = .error x) : (p >>= f).run s = .error x := by
  rw [StateT.run_bind, h, error_bind]

end Run

/-! ## Rules -/

/-- Two grammars one after the other; the second may depend on the value of the first, as a field
    does whose length has been read before it. -/
def Seq (G : α → List τ → Prop) (H : α → β → List τ → Prop) (b : β) (e : List τ) : Prop :=
  ∃ a e₁ e₂, e = e₁ ++ e₂ ∧ G a e₁ ∧ H a b e₂

variable {Ok : ε → Prop} {p : Reader τ ε α} {G : α → List τ → Prop}

/-- The same grammar, said in another way. The rules build a grammar out of `Seq`, and this is where
    it becomes the one a reader of the format would write down. -/
theorem Recognises.congr {G' : α → List τ → Prop} (h : Recognises Ok p G)
    (hG : ∀ a e, G a e ↔ G' a e) : Recognises Ok p G' where
  sound hr := by
    obtain ⟨e, t, hrest, he, hoff⟩ := h.sound hr
    exact ⟨e, t, hrest, (hG _ _).mp he, hoff⟩
  complete before t _ _ he := h.complete before t ((hG _ _).mpr he)
  fails := h.fails

theorem Recognises.pure (a : α) :
    Recognises Ok (fun _ : List τ => Pure.pure a) (fun b e => b = a ∧ e = []) where
  sound hr := by
    cases hr
    exact ⟨[], _, rfl, ⟨rfl, rfl⟩, by simp⟩
  complete before t _ _ he := by
    obtain ⟨rfl, rfl⟩ := he
    rw [StateT.run_pure, pure_eq_ok, List.append_nil]
  fails hr := by cases hr

/-- Sequencing. The second reader has to be exact only at values the first can give.

    In the first and the last part the first reader may have failed. That is excluded when the whole
    has succeeded, and it is the failure to be accounted for when the whole has failed. -/
theorem Recognises.bind {q : α → Reader τ ε β} {H : α → β → List τ → Prop}
    (hp : Recognises Ok p G) (hq : ∀ a e, G a e → Recognises Ok (q a) (H a)) :
    Recognises Ok (fun raw => p raw >>= fun a => q a raw) (Seq G H) where
  sound {before rest b off} hr := by
    cases h₁ : (p (before ++ rest)).run before.length with
    | error x => rw [run_bind_error h₁] at hr; cases hr
    | ok r =>
      obtain ⟨a, off₁⟩ := r
      -- what the first reader took now lies before the offset
      obtain ⟨e₁, t₁, rfl, hG, rfl⟩ := hp.sound h₁
      rw [run_bind_ok h₁, ← List.append_assoc] at hr
      obtain ⟨e₂, t₂, rfl, hH, rfl⟩ := (hq a e₁ hG).sound hr
      exact ⟨e₁ ++ e₂, t₂, by simp, ⟨a, e₁, e₂, rfl, hG, hH⟩, by simp⟩
  complete before t _ _ he := by
    obtain ⟨a, e₁, e₂, rfl, hG, hH⟩ := he
    -- to the first reader, the rest of the spelling is part of what follows
    have h₁ := hp.complete before (e₂ ++ t) hG
    have h₂ := (hq a e₁ hG).complete (before ++ e₁) t hH
    rw [List.append_assoc e₁ e₂ t, run_bind_ok h₁]
    simpa using h₂
  fails {before rest x} hr := by
    cases h₁ : (p (before ++ rest)).run before.length with
    | error y =>
      rw [run_bind_error h₁] at hr
      cases hr
      exact hp.fails h₁
    | ok r =>
      obtain ⟨a, off₁⟩ := r
      obtain ⟨e₁, t₁, rfl, hG, rfl⟩ := hp.sound h₁
      rw [run_bind_ok h₁, ← List.append_assoc] at hr
      exact (hq a e₁ hG).fails hr

/-- A guard reads nothing, and passes when its condition does not hold. -/
def throwIf (c : Prop) [Decidable c] (x : ε) : StateT Nat (Except ε) Unit :=
  if c then throw x else Pure.pure ()

theorem throwIf_of {c : Prop} [Decidable c] {x : ε} {s : Nat} (h : c) :
    (throwIf c x).run s = .error x := by
  rw [throwIf, if_pos h]; rfl

theorem throwIf_not {c : Prop} [Decidable c] {x : ε} {s : Nat} (h : ¬c) :
    (throwIf c x).run s = .ok ((), s) := by
  rw [throwIf, if_neg h]; rfl

/-- A guard is a reader of the empty string, which has the spelling only if the condition does not
    hold. -/
theorem Recognises.guard {c : Prop} [Decidable c] {x : ε} (hx : Ok x) :
    Recognises Ok (fun _ : List τ => throwIf c x) (fun _ e => ¬c ∧ e = []) where
  sound {before rest _ off} hr := by
    by_cases hc : c
    · rw [throwIf_of hc] at hr; cases hr
    · rw [throwIf_not hc] at hr
      cases hr
      exact ⟨[], rest, rfl, ⟨hc, rfl⟩, by simp⟩
  complete before t _ _ he := by
    obtain ⟨hc, rfl⟩ := he
    rw [throwIf_not hc, List.append_nil]
  fails {before rest y} hr := by
    by_cases hc : c
    · rw [throwIf_of hc] at hr; cases hr; exact hx
    · rw [throwIf_not hc] at hr; cases hr

/-- A counted loop that collects what its body reads. The count has been read before. -/
def Reader.times (p : Reader τ ε α) : Nat → Reader τ ε (List α)
  | 0, _ => Pure.pure []
  | n + 1, raw => do
    let a ← p raw
    let rest ← Reader.times p n raw
    return a :: rest

/-- The spellings of a list, one after another. -/
inductive Many (G : α → List τ → Prop) : List α → List τ → Prop
  | nil : Many G [] []
  | cons {a : α} {e : List τ} {as : List α} {es : List τ} :
      G a e → Many G as es → Many G (a :: as) (e ++ es)

/-- A counted loop is exact if its body is. The induction is on the count. Of the grammar it can
    only be said that the list has as many elements as the loop has turns: the loop does not look
    for an end. -/
theorem Recognises.times (hp : Recognises Ok p G) : ∀ n,
    Recognises Ok (p.times n) (fun as e => as.length = n ∧ Many G as e)
  | 0 => by
    refine (Recognises.pure []).congr fun as e => ⟨?_, ?_⟩
    · rintro ⟨rfl, rfl⟩
      exact ⟨rfl, .nil⟩
    · rintro ⟨hlen, hm⟩
      obtain rfl := List.length_eq_zero_iff.mp hlen
      cases hm
      exact ⟨rfl, rfl⟩
  | n + 1 => by
    -- The loop is its body, then the shorter loop, then the list put together.
    refine (hp.bind fun a _ _ => (hp.times n).bind fun as _ _ =>
      Recognises.pure (a :: as)).congr fun l e => ⟨?_, ?_⟩
    · rintro ⟨a, e₁, _, rfl, ha, as, e₂, _, rfl, ⟨hlen, hm⟩, rfl, rfl⟩
      rw [List.append_nil]
      exact ⟨by simp [hlen], .cons ha hm⟩
    · rintro ⟨hlen, hm⟩
      cases hm with
      | nil => cases hlen
      | cons ha hm =>
        exact ⟨_, _, _, rfl, ha, _, _, [], (List.append_nil _).symm,
          ⟨by simpa using hlen, hm⟩, rfl, rfl⟩

/-- A list of values that are each spelled in one way. -/
theorem many_spelled {P : α → Prop} {spell : α → List τ} {as : List α} {e : List τ} :
    Many (fun a e => P a ∧ e = spell a) as e ↔ (∀ a ∈ as, P a) ∧ e = as.flatMap spell := by
  constructor
  · intro hm
    induction hm with
    | nil => simp
    | cons ha _ ih =>
      obtain ⟨ha, rfl⟩ := ha
      obtain ⟨hrest, rfl⟩ := ih
      exact ⟨List.forall_mem_cons.mpr ⟨ha, hrest⟩, rfl⟩
  · rintro ⟨hall, rfl⟩
    induction as with
    | nil => exact .nil
    | cons a as ih =>
      obtain ⟨ha, hrest⟩ := List.forall_mem_cons.mp hall
      exact .cons ⟨ha, rfl⟩ (ih hrest)

/-- A branch on something already read. Each of the two readers may use the condition. -/
theorem Recognises.ite {c : Prop} [Decidable c] {q : Reader τ ε α} {H : α → List τ → Prop}
    (hp : c → Recognises Ok p G) (hq : ¬c → Recognises Ok q H) :
    Recognises Ok (fun raw => if c then p raw else q raw)
      (fun a e => if c then G a e else H a e) := by
  by_cases hc : c
  · simpa only [if_pos hc] using hp hc
  · simpa only [if_neg hc] using hq hc

/-! ## What an exact decoder guarantees -/

/-! A decoder is run on a whole input, from offset `0`. -/

theorem Recognises.sound_start (hp : Recognises Ok p G) {raw : List τ} {r : α × Nat}
    (h : (p raw).run 0 = .ok r) : ∃ e t, raw = e ++ t ∧ G r.1 e := by
  obtain ⟨e, t, he, hG, -⟩ := hp.sound (show (p ([] ++ raw)).run ([] : List τ).length = _ from h)
  exact ⟨e, t, he, hG⟩

theorem Recognises.complete_start (hp : Recognises Ok p G) {a : α} {e : List τ} (he : G a e)
    (t : List τ) : (p (e ++ t)).run 0 = .ok (a, e.length) :=
  hp.complete [] t he

theorem Recognises.fails_start (hp : Recognises Ok p G) {raw : List τ} {x : ε}
    (h : (p raw).run 0 = .error x) : Ok x :=
  hp.fails (show (p ([] ++ raw)).run ([] : List τ).length = _ from h)

/-- The accepted inputs are those that begin with a spelling. What follows it is not looked at; a
    decoder that has to use up its input checks that for itself. -/
theorem Recognises.accepts_iff (hp : Recognises Ok p G) {raw : List τ} :
    (∃ r, (p raw).run 0 = .ok r) ↔ ∃ a e t, raw = e ++ t ∧ G a e := by
  constructor
  · rintro ⟨r, hr⟩
    exact ⟨r.1, hp.sound_start hr⟩
  · rintro ⟨a, e, t, rfl, hG⟩
    exact ⟨_, hp.complete_start hG t⟩

/-- No spelling continues another one: of two spellings of which one begins the other, both are the
    same string and spell the same value. The reason is that the decoder is a function: it stops at
    one place, and exactness says that it stops at the end of either. -/
theorem Recognises.spelling_unique (hp : Recognises Ok p G) {a b : α} {e e' : List τ}
    (he : G a e) (he' : G b e') (h : e' <+: e) : e' = e ∧ b = a := by
  obtain ⟨t, rfl⟩ := h
  have h₁ := hp.complete_start he' t
  have h₂ := hp.complete_start he []
  rw [List.append_nil, h₁] at h₂
  simp only [Except.ok.injEq, Prod.mk.injEq] at h₂
  obtain ⟨rfl, hlen⟩ := h₂
  have ht : t = [] := by simpa using hlen
  exact ⟨by rw [ht, List.append_nil], rfl⟩

/-- A spelling cut short is refused. Were it accepted, a shorter spelling would begin it, and with
    it the whole one. -/
theorem Recognises.rejects_truncated (hp : Recognises Ok p G) {a : α} {e s : List τ}
    (he : G a e) (hs : s <+: e) (hne : s ≠ e) : ∃ x, (p s).run 0 = .error x := by
  cases hr : (p s).run 0 with
  | error x => exact ⟨x, rfl⟩
  | ok r =>
    obtain ⟨b, e', t, rfl, he'⟩ := hp.accepts_iff.mp ⟨r, hr⟩
    obtain ⟨rfl, -⟩ := hp.spelling_unique he he' ((List.prefix_append e' t).trans hs)
    exact absurd (hs.eq_of_length_le (by simp)) hne

end Messenger.Lib
