import Mathlib.Data.List.Basic

/-!
# Footprints, and steps that commute

A state is seen through its places. A step has a *footprint* at a state `s` if there are places
such that from every state which looks like `s` there it makes the same patch: the same values in
the same places, all others as they were, and the same output. The time of the step (`τ`) makes no
difference to its patch.

Two steps commute if neither patches what the other looks at or patches (`Patches.commute`).
-/

set_option autoImplicit false

namespace Messenger.Lib

variable {L O σ τ : Type} {V : L → Type}

/-- What a step does to the places: a new value where it writes, `none` where it does not, and what
    it puts out. -/
structure Patch (V : L → Type) (O : Type) where
  writes : (l : L) → Option (V l)
  output : List O

/-- The state, as it looks with the patch on it. -/
def Patch.apply (p : Patch V O) (v : (l : L) → V l) : (l : L) → V l :=
  fun l => (p.writes l).getD (v l)

theorem Patch.apply_of_none {p : Patch V O} {l : L} (h : p.writes l = none) (v : (l : L) → V l) :
    p.apply v l = v l := by
  unfold Patch.apply
  rw [h]
  rfl

/-- A patch that writes nothing. -/
def Patch.silent (V : L → Type) (output : List O) : Patch V O := ⟨fun _ => none, output⟩

/-- The two states look alike at the places `R`. -/
def SameAt (R : L → Prop) (v w : (l : L) → V l) : Prop := ∀ l, R l → w l = v l

variable (view : σ → (l : L) → V l) (output : σ → List O)

/-- The step `a` makes the patch `p` at `s`, and looks only at `R`. The quantifier over `s'` is what
    makes `R` a footprint: wherever those places look as they do in `s`, the step does the same,
    whatever the other places hold and whenever it is taken. -/
def Patches (a : τ → σ → σ) (s : σ) (R : L → Prop) (p : Patch V O) : Prop :=
  ∀ t s', SameAt R (view s) (view s') →
    view (a t s') = p.apply (view s') ∧ output (a t s') = output s' ++ p.output

variable {view output} {a b : τ → σ → σ} {s : σ} {R R' : L → Prop} {p q : Patch V O}

theorem Patches.sameAt (ha : Patches view output a s R p) (h : ∀ l, R' l → p.writes l = none)
    (t : τ) : SameAt R' (view s) (view (a t s)) := by
  intro l hl
  rw [(ha t s fun _ _ => rfl).1]
  exact Patch.apply_of_none (h l hl) (view s)

/-- Patches that have no place in common can be put on in either order. -/
theorem Patch.apply_comm (h : ∀ l, p.writes l = none ∨ q.writes l = none) (v : (l : L) → V l) :
    q.apply (p.apply v) = p.apply (q.apply v) := by
  funext l
  rcases h l with hp | hq
  · rw [Patch.apply_of_none hp]
    unfold Patch.apply
    rw [hp]
    rfl
  · rw [Patch.apply_of_none hq]
    unfold Patch.apply
    rw [hq]
    rfl

/-- **Independent steps commute.** The state is the same either way, and the output is the same up
    to its order. Four times are given since neither step runs at the same time in both orders. -/
theorem Patches.commute (ha : Patches view output a s R p) (hb : Patches view output b s R' q)
    (hp : ∀ l, R' l → p.writes l = none) (hq : ∀ l, R l → q.writes l = none)
    (hpq : ∀ l, p.writes l = none ∨ q.writes l = none) (t₁ t₂ t₃ t₄ : τ) :
    view (b t₂ (a t₁ s)) = view (a t₄ (b t₃ s)) ∧
      (output (b t₂ (a t₁ s))).Perm (output (a t₄ (b t₃ s))) := by
  obtain ⟨hview₁, hout₁⟩ := ha t₁ s fun _ _ => rfl
  -- the second step finds its footprint as it was before the first
  obtain ⟨hview₂, hout₂⟩ := hb t₂ _ (ha.sameAt hp t₁)
  obtain ⟨hview₃, hout₃⟩ := hb t₃ s fun _ _ => rfl
  obtain ⟨hview₄, hout₄⟩ := ha t₄ _ (hb.sameAt hq t₃)
  constructor
  · rw [hview₂, hview₁, hview₄, hview₃]
    exact Patch.apply_comm hpq (view s)
  · rw [hout₂, hout₁, hout₄, hout₃, List.append_assoc, List.append_assoc]
    exact List.perm_append_comm.append_left (output s)

end Messenger.Lib
