import Mathlib.Logic.Basic

/-!
# Computations that change a state and may fail

A computation in `EStateM` keeps the changes it made before it fails. That is how a program with
exceptions behaves: a handler that throws half-way leaves behind what it has done, and the next
event finds it. So a result about such a program has to speak of the state after a failure as well
as of the state after a return, and `finalState` is that state, however the computation ends.

`Respects R E x s` says what matters about a computation started at `s` when only its effect
counts: the state it leaves is related to `s` by `R`, and a failure is one that `E` allows. There is
one rule for each way a computation is put together, so that a proof about a handler has the shape
of the handler.

Two instances have rules of their own because they are what most proofs need: `EndsIn`, where the
relation is a property of the last state (an invariant), and `Keeps`, where it is that some view of
the state has not changed (a frame).
-/

set_option autoImplicit false

namespace Messenger.Lib

variable {ε σ α β : Type}

/-- The state that a computation leaves, however it ends. The value and the failure are forgotten;
    what a run of many events does next depends on neither. -/
def finalState (x : EStateM ε σ α) (s : σ) : σ :=
  match x s with
  | .ok _ s => s
  | .error _ s => s

theorem finalState_ok {x : EStateM ε σ α} {s s' : σ} {a : α} (h : x s = .ok a s') :
    finalState x s = s' := by
  unfold finalState
  rw [h]

theorem finalState_error {x : EStateM ε σ α} {s s' : σ} {e : ε} (h : x s = .error e s') :
    finalState x s = s' := by
  unfold finalState
  rw [h]

theorem finalState_congr {x y : EStateM ε σ α} {s t : σ} (h : x s = y t) :
    finalState x s = finalState y t := by
  unfold finalState
  rw [h]

theorem bind_ok {x : EStateM ε σ α} {f : α → EStateM ε σ β} {s s' : σ} {a : α}
    (h : x s = .ok a s') : (x >>= f) s = f a s' := by
  show EStateM.bind x f s = f a s'
  unfold EStateM.bind
  rw [h]

theorem bind_error {x : EStateM ε σ α} {f : α → EStateM ε σ β} {s s' : σ} {e : ε}
    (h : x s = .error e s') : (x >>= f) s = .error e s' := by
  show EStateM.bind x f s = .error e s'
  unfold EStateM.bind
  rw [h]

/-- Two runs that are the same so far go on in the same way. The states they start from need not be
    the same, so this replaces the beginning of a computation together with its start. -/
theorem bind_congr_run {x y : EStateM ε σ α} {s t : σ} (h : x s = y t)
    (f : α → EStateM ε σ β) : (x >>= f) s = (y >>= f) t := by
  show EStateM.bind x f s = EStateM.bind y f t
  unfold EStateM.bind
  rw [h]

theorem get_bind_run (f : σ → EStateM ε σ β) (s : σ) : (get >>= f) s = f s s := rfl

/-- A sequence that returns has returned in both its parts. Read backwards from a result, this is
    how a proof gets at the state in the middle. -/
theorem bind_eq_ok {x : EStateM ε σ α} {f : α → EStateM ε σ β} {s s' : σ} {b : β}
    (h : (x >>= f) s = .ok b s') : ∃ a s₁, x s = .ok a s₁ ∧ f a s₁ = .ok b s' := by
  cases hx : x s with
  | ok a s₁ =>
    rw [bind_ok hx] at h
    exact ⟨a, s₁, rfl, h⟩
  | error e s₁ =>
    rw [bind_error hx] at h
    cases h

/-- A sequence that fails has failed in one of its parts. In the second case the first part has
    returned, and what it changed is in the state of the failure. -/
theorem bind_eq_error {x : EStateM ε σ α} {f : α → EStateM ε σ β} {s s' : σ} {e : ε}
    (h : (x >>= f) s = .error e s') :
    x s = .error e s' ∨ ∃ a s₁, x s = .ok a s₁ ∧ f a s₁ = .error e s' := by
  cases hx : x s with
  | ok a s₁ =>
    rw [bind_ok hx] at h
    exact .inr ⟨a, s₁, rfl, h⟩
  | error e' s₁ =>
    rw [bind_error hx] at h
    cases h
    exact .inl rfl

theorem finalState_bind_ok {x : EStateM ε σ α} {f : α → EStateM ε σ β} {s s' : σ} {a : α}
    (h : x s = .ok a s') : finalState (x >>= f) s = finalState (f a) s' := by
  unfold finalState
  rw [bind_ok h]

theorem finalState_bind_error {x : EStateM ε σ α} {f : α → EStateM ε σ β} {s s' : σ} {e : ε}
    (h : x s = .error e s') : finalState (x >>= f) s = s' := by
  unfold finalState
  rw [bind_error h]

theorem finalState_get_bind (f : σ → EStateM ε σ β) (s : σ) :
    finalState (get >>= f) s = finalState (f s) s := rfl

/-- Something computed from the value at the end makes no difference to the state. -/
theorem finalState_bind_pure (x : EStateM ε σ α) (g : α → β) (s : σ) :
    finalState (x >>= fun a => pure (g a)) s = finalState x s := by
  cases h : x s with
  | ok a s' => rw [finalState_bind_ok h, finalState_ok h]; rfl
  | error e s' => rw [finalState_bind_error h, finalState_error h]

/-- The effect of `x` at `s`: whatever it leaves is related to `s` by `R`, and `E` allows its
    failures. The relation has both states because most facts about a handler compare what it leaves
    with what it found; an invariant is the case where the first one is not looked at. -/
structure Respects (R : σ → σ → Prop) (E : ε → Prop) (x : EStateM ε σ α) (s : σ) : Prop where
  state : R s (finalState x s)
  fails : ∀ {e : ε} {s' : σ}, x s = .error e s' → E e

variable {R R' : σ → σ → Prop} {E : ε → Prop} {x : EStateM ε σ α} {f : α → EStateM ε σ β}
  {s s' : σ}

theorem Respects.of_ok {a : α} (hx : x s = .ok a s') (h : R s s') : Respects R E x s where
  state := finalState_ok hx ▸ h
  fails he := by
    rw [hx] at he
    cases he

theorem Respects.pure (a : α) (h : R s s) : Respects R E (Pure.pure a : EStateM ε σ α) s where
  state := h
  fails he := by cases he

theorem Respects.throw {e : ε} (h : R s s) (he : E e) :
    Respects R E (MonadExcept.throw e : EStateM ε σ α) s where
  state := h
  fails he' := by
    cases he'
    exact he

theorem Respects.modify {g : σ → σ} (h : R s (g s)) :
    Respects R E (modify g : EStateM ε σ PUnit) s where
  state := h
  fails he := by cases he

theorem Respects.get_bind {f : σ → EStateM ε σ β} (h : Respects R E (f s) s) :
    Respects R E (get >>= f) s := ⟨h.state, h.fails⟩

theorem Respects.set_bind {f : PUnit → EStateM ε σ β} (h : Respects R' E (f ⟨⟩) s')
    (hR : ∀ t, R' s' t → R s t) : Respects R E (set s' >>= f) s :=
  ⟨hR _ h.state, h.fails⟩

theorem Respects.of_run {y : EStateM ε σ α} (hxy : x s = y s') (h : Respects R' E y s')
    (hR : ∀ t, R' s' t → R s t) : Respects R E x s where
  state := by
    rw [finalState_congr hxy]
    exact hR _ h.state
  fails he := h.fails (hxy.symm.trans he)

/-- After a part that is known to return, the rest counts from the state it returns in. -/
theorem Respects.after_ok {a : α} (hx : x s = .ok a s') (h : Respects R' E (f a) s')
    (hR : ∀ t, R' s' t → R s t) : Respects R E (x >>= f) s :=
  .of_run (bind_ok hx) h hR

/-- Sequencing, with a relation `R'` for the first part that can be put before `R`. Both hypotheses
    about `R` are needed: `htrans` for the run that gets through, and `hR` for the one that fails in
    the first part and never comes to the second. -/
theorem Respects.bind (hx : Respects R' E x s) (hf : ∀ a s', R' s s' → Respects R E (f a) s')
    (hR : ∀ s', R' s s' → R s s') (htrans : ∀ s' t, R' s s' → R s' t → R s t) :
    Respects R E (x >>= f) s := by
  have hstate := hx.state
  cases hr : x s with
  | ok a s₁ =>
    rw [finalState_ok hr] at hstate
    have h := hf a s₁ hstate
    refine ⟨?_, ?_⟩
    · rw [finalState_bind_ok hr]
      exact htrans s₁ _ hstate h.state
    · intro e s' he
      rw [bind_ok hr] at he
      exact h.fails he
  | error e s₁ =>
    -- the second part is not reached, so the first has to be in the relation by itself
    rw [finalState_error hr] at hstate
    refine ⟨?_, ?_⟩
    · rw [finalState_bind_error hr]
      exact hR s₁ hstate
    · intro e' s' he
      rw [bind_error hr] at he
      cases he
      exact hx.fails hr

/-- What is made of the value does not matter. `Respects.bind` would ask for a relation that can be
    put before itself, and here there is no need of one. -/
theorem Respects.bind_pure (h : Respects R E x s) (g : α → β) :
    Respects R E (x >>= fun a => Pure.pure (g a)) s := by
  have hstate := h.state
  cases hr : x s with
  | ok a s' =>
    have hbind : (x >>= fun a => Pure.pure (g a)) s = .ok (g a) s' := bind_ok hr
    rw [finalState_ok hr] at hstate
    refine ⟨finalState_ok hbind ▸ hstate, ?_⟩
    intro e s'' he
    rw [hbind] at he
    cases he
  | error e s' =>
    have hbind : (x >>= fun a => Pure.pure (g a)) s = .error e s' := bind_error hr
    rw [finalState_error hr] at hstate
    refine ⟨finalState_error hbind ▸ hstate, ?_⟩
    intro e' s'' he
    rw [hbind] at he
    cases he
    exact h.fails hr

/-- A weaker relation. It is compared at the start `s` only. -/
theorem Respects.mono (h : Respects R E x s) (hR : ∀ t, R s t → R' s t) : Respects R' E x s :=
  ⟨hR _ h.state, h.fails⟩

/-- A loop whose turns need more than their own start: `P` is what a turn relies on, and it holds
    between the turns. It is stated of the prefixes of the loop, since whether `P` holds before a
    turn is a matter of what the turns before it did. -/
theorem Respects.forM_between {P : σ → Prop} {f : α → EStateM ε σ PUnit} (hrefl : ∀ s, R s s)
    (htrans : ∀ s t u, R s t → R t u → R s u)
    (hf : ∀ a s, P s → Respects R (fun _ => True) (f a) s) (l : List α) (s : σ)
    (hP : ∀ k, P (finalState ((l.take k).forM f) s)) :
    Respects R (fun _ => True) (l.forM f) s := by
  induction l generalizing s with
  | nil => exact .pure _ (hrefl s)
  | cons a l ih =>
    have hcons (l : List α) : (a :: l).forM f = f a >>= fun _ => l.forM f := rfl
    have hturn := hf a s (hP 0)
    have hstate := hturn.state
    cases ha : f a s with
    | ok u s₁ =>
      rw [finalState_ok ha] at hstate
      -- the loop goes on from `s₁`; its prefixes are those of the whole loop, one longer
      have hrest : Respects R (fun _ => True) (l.forM f) s₁ := by
        apply ih
        intro k
        have hbetween := hP (k + 1)
        rw [List.take_succ_cons, hcons, finalState_bind_ok ha] at hbetween
        exact hbetween
      refine ⟨?_, fun _ => trivial⟩
      rw [hcons, finalState_bind_ok ha]
      exact htrans _ _ _ hstate hrest.state
    | error e s₁ =>
      rw [finalState_error ha] at hstate
      refine ⟨?_, fun _ => trivial⟩
      rw [hcons, finalState_bind_error ha]
      exact hstate

/-! ## Invariants -/

/-- The state that the computation leaves has the property `I`, however it ends. This is the
    invariant form of `Respects`: an event that fails half-way has to keep the invariant too,
    because the next event starts there. -/
abbrev EndsIn (I : σ → Prop) (x : EStateM ε σ α) (s : σ) : Prop :=
  Respects (fun _ s' => I s') (fun _ => True) x s

section EndsIn

variable {I : σ → Prop}

/-- The first part need only reach the invariant; the second finds it and keeps it. -/
theorem EndsIn.bind (hx : EndsIn I x s) (hf : ∀ a s', I s' → EndsIn I (f a) s') :
    EndsIn I (x >>= f) s :=
  Respects.bind hx hf (fun _ h => h) fun _ _ _ h => h

theorem EndsIn.set_bind {f : PUnit → EStateM ε σ β} (h : EndsIn I (f ⟨⟩) s') :
    EndsIn I (set s' >>= f) s :=
  Respects.set_bind h fun _ h => h

theorem EndsIn.after_ok {a : α} (hx : x s = .ok a s') (h : EndsIn I (f a) s') :
    EndsIn I (x >>= f) s :=
  Respects.after_ok hx h fun _ h => h

/-- A loop keeps what each of its turns keeps. The turn may use that its element is in the list. -/
theorem EndsIn.forM {f : α → EStateM ε σ PUnit} {l : List α}
    (hf : ∀ a ∈ l, ∀ s, I s → EndsIn I (f a) s) {s : σ} (hs : I s) : EndsIn I (l.forM f) s := by
  induction l generalizing s with
  | nil => exact .pure _ hs
  | cons a l ih =>
    exact EndsIn.bind (hf a List.mem_cons_self s hs) fun _ s' hs' =>
      ih (fun b hb => hf b (List.mem_cons_of_mem a hb)) hs'

end EndsIn

/-! ## What a computation leaves alone -/

/-- Whatever the computation does, and however it ends, `g` sees no difference. It is said of every
    start, so that the rules have no side conditions and the proof of a frame is one rule a line. -/
def Keeps {τ : Type} (g : σ → τ) (x : EStateM ε σ α) : Prop :=
  ∀ s, Respects (fun s s' => g s' = g s) (fun _ => True) x s

section Keeps

variable {τ : Type} {g : σ → τ}

theorem Keeps.finalState (h : Keeps g x) (s : σ) : g (Lib.finalState x s) = g s := (h s).state

theorem Keeps.of_ok {a : α} (h : Keeps g x) (hx : x s = .ok a s') : g s' = g s := by
  rw [← Lib.finalState_ok hx]
  exact h.finalState s

theorem Keeps.of_error {e : ε} (h : Keeps g x) (hx : x s = .error e s') : g s' = g s := by
  rw [← Lib.finalState_error hx]
  exact h.finalState s

theorem Keeps.pure (a : α) : Keeps g (Pure.pure a : EStateM ε σ α) := fun _ => .pure a rfl

theorem Keeps.throw (e : ε) : Keeps g (MonadExcept.throw e : EStateM ε σ α) := fun _ =>
  .throw rfl trivial

theorem Keeps.modify {u : σ → σ} (h : ∀ s, g (u s) = g s) :
    Keeps g (modify u : EStateM ε σ PUnit) := fun s => .modify (h s)

theorem Keeps.get_bind {f : σ → EStateM ε σ β} (h : ∀ s, Keeps g (f s)) : Keeps g (get >>= f) :=
  fun s => .get_bind (h s s)

theorem Keeps.bind (hx : Keeps g x) (hf : ∀ a, Keeps g (f a)) : Keeps g (x >>= f) := fun s =>
  (hx s).bind (fun a s' _ => hf a s') (fun _ h => h) fun _ _ h h' => h'.trans h

/-- A write of what was read, with something changed that `g` does not see. `set` alone keeps
    nothing: only together with the `get` before it is the new state known to be the old one but for
    `u`. -/
theorem Keeps.get_set_bind {u : σ → σ} {f : σ → PUnit → EStateM ε σ β} (hu : ∀ s, g (u s) = g s)
    (hf : ∀ s, Keeps g (f s ⟨⟩)) : Keeps g (get >>= fun s => set (u s) >>= f s) := fun s =>
  .get_bind (.set_bind (hf s (u s)) fun _ h => h.trans (hu s))

theorem Keeps.forM {f : α → EStateM ε σ PUnit} (hf : ∀ a, Keeps g (f a)) :
    ∀ l : List α, Keeps g (l.forM f)
  | [] => .pure _
  | a :: l => .bind (hf a) fun _ => Keeps.forM hf l

end Keeps

end Messenger.Lib
