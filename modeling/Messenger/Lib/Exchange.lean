import Mathlib.Data.List.Basic
import Mathlib.Logic.Function.Basic

/-!
# Two parties that number their messages with one counter each

Each party has a single counter. It numbers the messages the party sends, and it is also
what the party expects of the next message it receives: a message with that number is
accepted and advances the counter, any other is dropped. Messages of one party arrive in
the order they were sent.

This works as long as only one party speaks at a time: while nothing is on its way to the
speaker, what is on its way from it is numbered without a gap from the counter of the
listener to that of the speaker (`InStep`). A party that speaks while a message is on its
way to it moves its counter past the number of that message.
-/

set_option autoImplicit false

namespace Messenger.Lib

/-- The two parties of an exchange. -/
inductive Party
  | alice
  | bob
  deriving DecidableEq, Repr

namespace Party

/-- The one that a party speaks to. -/
def other : Party → Party
  | alice => bob
  | bob => alice

@[simp] theorem other_other (p : Party) : p.other.other = p := by
  cases p with
  | alice => rfl
  | bob => rfl

@[simp] theorem other_ne (p : Party) : p.other ≠ p := by
  cases p with
  | alice => decide
  | bob => decide

@[simp] theorem ne_other (p : Party) : p ≠ p.other := (other_ne p).symm

theorem eq_or_eq_other (p q : Party) : p = q ∨ p = q.other := by
  cases p with
  | alice =>
    cases q with
    | alice => exact .inl rfl
    | bob => exact .inr rfl
  | bob =>
    cases q with
    | alice => exact .inr rfl
    | bob => exact .inl rfl

end Party

/-- The counters, the numbered messages of each party that have not arrived yet, and all messages
    each party has sent and accepted. The last two play no part in what happens. They are there so
    that what has happened can be said: that everything sent was accepted, in order. -/
structure Exchange (C T : Type) where
  counter : Party → C
  flight : Party → List (C × T)
  sent : Party → List T
  shown : Party → List T

namespace Exchange

variable {C T : Type} (next : C → C)

/-- `p` sends `t`, under its counter. The counter moves at once, although the message may take long
    to arrive: a party that is spoken to in the meantime no longer expects the number it is
    given. -/
def send (e : Exchange C T) (p : Party) (t : T) : Exchange C T where
  counter := Function.update e.counter p (next (e.counter p))
  flight := Function.update e.flight p (e.flight p ++ [(e.counter p, t)])
  sent := Function.update e.sent p (e.sent p ++ [t])
  shown := e.shown

/-- One message after the other, with nothing arriving in between. -/
def sendAll (e : Exchange C T) (p : Party) (ts : List T) : Exchange C T :=
  ts.foldl (fun e t => e.send next p t) e

/-- The first message on its way to `p` arrives. It is taken out of the way whether it is accepted
    or dropped, and a message that is dropped does not move the counter, so the next one is dropped
    too unless its number happens to be the one expected. -/
def receive [DecidableEq C] (e : Exchange C T) (p : Party) : Exchange C T :=
  match e.flight p.other with
  | [] => e
  | (n, t) :: rest =>
    let e := { e with flight := Function.update e.flight p.other rest }
    if n = e.counter p then
      { e with
        counter := Function.update e.counter p (next n)
        shown := Function.update e.shown p (e.shown p ++ [t]) }
    else e

section

variable (e : Exchange C T) (p : Party)

theorem sendAll_sent (ts : List T) :
    (e.sendAll next p ts).sent = Function.update e.sent p (e.sent p ++ ts) := by
  induction ts generalizing e with
  | nil => simp [sendAll]
  | cons t ts ih =>
    show ((e.send next p t).sendAll next p ts).sent = _
    rw [ih]
    simp [send]

theorem sendAll_other (ts : List T) :
    (e.sendAll next p ts).counter p.other = e.counter p.other ∧
      (e.sendAll next p ts).shown p.other = e.shown p.other ∧
      (e.sendAll next p ts).flight p.other = e.flight p.other := by
  induction ts generalizing e with
  | nil => exact ⟨rfl, rfl, rfl⟩
  | cons t ts ih =>
    obtain ⟨hcounter, hshown, hflight⟩ := ih (e.send next p t)
    refine ⟨hcounter.trans ?_, hshown, hflight.trans ?_⟩
    · simp [send]
    · simp [send]

variable [DecidableEq C]

theorem receive_sent : (e.receive next p).sent = e.sent := by
  unfold receive
  split
  · rfl
  · dsimp only
    split
    · rfl
    · rfl

/-- Nothing changes for the other party, and nothing is added to what is on its way there: an
    arrival is not answered. -/
theorem receive_other : (e.receive next p).counter p.other = e.counter p.other ∧
    (e.receive next p).shown p.other = e.shown p.other ∧
    (e.receive next p).flight p = e.flight p := by
  unfold receive
  split
  · exact ⟨rfl, rfl, rfl⟩
  · dsimp only
    split
    · simp
    · simp

theorem receive_flight {n : C} {t : T} {rest : List (C × T)}
    (h : e.flight p.other = (n, t) :: rest) : (e.receive next p).flight p.other = rest := by
  unfold receive
  rw [h]
  dsimp only
  split
  · simp
  · simp

end

/-- The messages are numbered one after the other from `c` on, and `c'` comes next. As a relation
    between the two ends it says that there is no gap, without arithmetic on the numbers: `next` may
    be any function, a counter that wraps around included. -/
inductive Numbered : C → List (C × T) → C → Prop
  | nil (c : C) : Numbered c [] c
  | cons {c c' : C} {t : T} {l : List (C × T)} :
      Numbered (next c) l c' → Numbered c ((c, t) :: l) c'

theorem Numbered.concat {c c' : C} {l : List (C × T)} (h : Numbered next c l c') (t : T) :
    Numbered next c (l ++ [(c', t)]) (next c') := by
  induction h with
  | nil c => exact .cons (.nil _)
  | cons _ ih => exact .cons ih

theorem Numbered.of_nil {c c' : C} (h : Numbered (T := T) next c [] c') : c = c' := by
  cases h with
  | nil => rfl

/-- One party speaks, and what it has sent is what the other has accepted and what is on its way.
    The first field asks for one direction to be empty. Without that the numbers could not fit,
    since both parties count messages in both directions with the same counter. -/
structure InStep (e : Exchange C T) : Prop where
  numbered : ∃ p, e.flight p.other = [] ∧
    Numbered next (e.counter p.other) (e.flight p) (e.counter p)
  shown : ∀ p, e.shown p ++ (e.flight p.other).map Prod.snd = e.sent p.other

variable {next} {e : Exchange C T}

/-- While nothing is on its way to `q`, it is `q` that speaks. `InStep` says that one of the two
    does, and not which; when nothing is on its way at all, either one may be taken to speak. -/
theorem InStep.numbered_of_quiet (h : InStep next e) {q : Party} (hq : e.flight q.other = []) :
    Numbered next (e.counter q.other) (e.flight q) (e.counter q) := by
  obtain ⟨p, hquiet, hp⟩ := h.numbered
  rcases p.eq_or_eq_other q with rfl | rfl
  · exact hp
  · -- nothing is on its way in either direction, so the counters agree
    rw [hq, Party.other_other] at hp
    rw [Party.other_other] at hquiet
    rw [hquiet, hp.of_nil]
    exact .nil _

/-- While something is on its way to `q`, it is the other one that speaks. -/
theorem InStep.numbered_of_flight (h : InStep next e) {q : Party} {message : C × T}
    {rest : List (C × T)} (hflight : e.flight q.other = message :: rest) :
    e.flight q = [] ∧ Numbered next (e.counter q) (message :: rest) (e.counter q.other) := by
  obtain ⟨p, hquiet, hp⟩ := h.numbered
  rcases p.eq_or_eq_other q with rfl | rfl
  · rw [hflight] at hquiet
    -- `q` cannot be the one that speaks, since something is on its way to it
    cases hquiet
  · rw [Party.other_other] at hquiet
    rw [hflight, Party.other_other] at hp
    exact ⟨hquiet, hp⟩

/-- **The next message is the one that is expected.** So nothing is dropped as long as the two are
    in step. -/
theorem InStep.expected (h : InStep next e) {q : Party} {n : C} {t : T} {rest : List (C × T)}
    (hflight : e.flight q.other = (n, t) :: rest) : n = e.counter q := by
  obtain ⟨-, hnumbered⟩ := h.numbered_of_flight hflight
  cases hnumbered with
  | cons _ => rfl

/-- A message sent while nothing is on its way to the sender keeps the two in step. This is the
    condition that a user has no way to see to. -/
theorem InStep.send (h : InStep next e) {p : Party} (hquiet : e.flight p.other = []) (t : T) :
    InStep next (e.send next p t) where
  numbered := by
    refine ⟨p, ?_, ?_⟩
    · simpa [Exchange.send] using hquiet
    · simpa [Exchange.send] using (h.numbered_of_quiet hquiet).concat next t
  shown q := by
    rcases q.eq_or_eq_other p with rfl | rfl
    · simpa [Exchange.send] using h.shown q
    · have hshown := h.shown p.other
      rw [Party.other_other] at hshown
      simp [Exchange.send, ← hshown]

theorem send_quiet {p : Party} (hquiet : e.flight p.other = []) (t : T) :
    (e.send next p t).flight p.other = [] := by
  simpa [Exchange.send] using hquiet

/-- **A party may send any number of messages while nothing is on its way to it.** -/
theorem InStep.sendAll (h : InStep next e) {p : Party} (ts : List T)
    (hquiet : ts ≠ [] → e.flight p.other = []) : InStep next (e.sendAll next p ts) := by
  induction ts generalizing e with
  | nil => exact h
  | cons t ts ih =>
    have hquiet := hquiet (List.cons_ne_nil t ts)
    exact ih (h.send hquiet t) fun _ => send_quiet hquiet t

/-- **An arrival is accepted**, and the two are in step after it. With nothing on its way nothing
    happens. -/
theorem InStep.receive [DecidableEq C] (h : InStep next e) (q : Party) :
    InStep next (e.receive next q) := by
  unfold Exchange.receive
  cases hflight : e.flight q.other with
  | nil => exact h
  | cons message rest =>
    obtain ⟨n, t⟩ := message
    have hn := h.expected hflight
    simp only [hn, if_true]
    constructor
    · -- the sender goes on speaking, and the receiver's counter moves to the next number
      obtain ⟨hquiet, hnumbered⟩ := h.numbered_of_flight hflight
      refine ⟨q.other, ?_, ?_⟩
      · simpa using hquiet
      · cases hnumbered with
        | cons hrest => simpa using hrest
    · intro p
      rcases p.eq_or_eq_other q with rfl | rfl
      · have hshown := h.shown p
        rw [hflight] at hshown
        simpa using hshown
      · simpa using h.shown q.other

end Exchange

end Messenger.Lib
