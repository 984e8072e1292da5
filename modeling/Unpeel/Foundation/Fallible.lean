import Mathlib.Init

/-! # Computations that fail and keep what they changed

A function with a mutable receiver and a `Result` changes the receiver step by step, and
what it changed before an error stays changed. Its statements are pre- and postconditions,
the postcondition about the outcome and the state, whatever the outcome is.
-/
namespace Unpeel.Fallible

abbrev Attempt (σ ε : Type) := ExceptT ε (StateM σ)

variable {σ ε α β ι : Type}

theorem bind_eq_ok {x : Except ε α} {f : α → Except ε β} {b : β} (h : x >>= f = .ok b) : ∃ a, x = .ok a ∧ f a = .ok b := by
  cases x with
  | error e => cases h
  | ok a => exact ⟨a,rfl,h⟩

def perform (x : Attempt σ ε α) (s : σ) : Except ε α × σ := x.run.run s

/-- From every state of `P` the computation ends in an outcome and a state of `Q`. -/
def Holds (P : σ → Prop) (x : Attempt σ ε α) (Q : Except ε α → σ → Prop) : Prop :=
  ∀ s, P s → Q (perform x s).1 (perform x s).2

def whenever (c : Bool) (x : Attempt σ ε PUnit) : Attempt σ ε PUnit := if c then x else pure ⟨⟩

def After (J E : σ → Prop) : Except ε α → σ → Prop
  | .ok _ => J
  | .error _ => E

def Keeps (J E : σ → Prop) (x : Attempt σ ε α) : Prop := Holds J x (After J E)

variable {P P' R : σ → Prop} {Q Q' : Except ε α → σ → Prop} {J E : σ → Prop}

theorem Holds.mono {x : Attempt σ ε α} (h : Holds P x Q) (hP : ∀ s, P' s → P s)
    (hQ : ∀ outcome s, Q outcome s → Q' outcome s) : Holds P' x Q' :=
  fun s hs => hQ _ _ (h s (hP s hs))

/-- From one state in hand. -/
theorem Holds.starting {x : Attempt σ ε α} (h : Holds P x Q) {s : σ} (hs : P s) : Holds (fun t => t = s) x Q := by
  rintro _ rfl
  exact h _ hs

/-- A fact that is not about the state. -/
theorem Holds.given {x : Attempt σ ε α} {φ : Prop} (h : φ → Holds P x Q) : Holds (fun s => P s ∧ φ) x Q :=
  fun s hs => h hs.2 s hs.1

/-- What every state of `P` shows. -/
theorem Holds.knowing {x : Attempt σ ε α} {φ : Prop} (hP : ∀ s, P s → φ) (h : φ → Holds P x Q) : Holds P x Q :=
  fun s hs => h (hP s hs) s hs

variable {a : α}

theorem holds_pure (h : ∀ s, P s → Q (.ok a) s) : Holds P (pure a : Attempt σ ε α) Q := h

variable {e : ε}

theorem holds_throw (h : ∀ s, P s → Q (.error e) s) : Holds P (throw e : Attempt σ ε α) Q := h

theorem holds_modify {f : σ → σ} {Q : Except ε PUnit → σ → Prop} (h : ∀ s, P s → Q (.ok ⟨⟩) (f s)) :
    Holds P (modify f : Attempt σ ε PUnit) Q := h

theorem perform_bind (x : Attempt σ ε α) (f : α → Attempt σ ε β) (s : σ) :
    perform (x >>= f) s = match perform x s with
      | (.ok a,t) => perform (f a) t
      | (.error e,t) => (.error e,t) := by
  change (match (x.run.run s).1 with | .ok a => (f a).run | .error e => pure (.error e)).run (x.run.run s).2 = _
  rw [perform]
  rcases x.run.run s with ⟨outcome,t⟩
  cases outcome with
  | ok a | error e => rfl

variable {f : α → Attempt σ ε β}

/-- The rest of a computation begins where the first part was successful. -/
theorem holds_bind {x : Attempt σ ε α} {Q : Except ε β → σ → Prop}
    {M : Except ε α → σ → Prop} (hx : Holds P x M) (hf : ∀ a, Holds (M (.ok a)) (f a) Q)
    (he : ∀ e s, M (.error e) s → Q (.error e) s) : Holds P (x >>= f) Q := by
  intro s hs
  have h := hx s hs
  rw [perform_bind]
  revert h
  rcases perform x s with ⟨outcome,t⟩
  intro h
  cases outcome with
  | ok a => exact hf a t h
  | error e => exact he e t h

/-- A computation that reads the state begins with it in hand. -/
theorem holds_get {f : σ → Attempt σ ε α} (h : ∀ t, P t → Holds (fun s => s = t) (f t) Q) :
    Holds P (get >>= f) Q :=
  fun s hs => h s hs s rfl

/-- The loop rule: the invariant is about the elements still to come. -/
theorem holds_forM {f : ι → Attempt σ ε PUnit} (I : List ι → σ → Prop) (E : σ → Prop) (xs : List ι)
    (h : ∀ i rest, Holds (I (i :: rest)) (f i) (After (I rest) E)) :
    Holds (I xs) (xs.forM f) (After (I []) E) := by
  induction xs with
  | nil => exact holds_pure fun s hs => hs
  | cons i rest ih => exact holds_bind (h i rest) (fun _ => ih) (fun _ _ he => he)

def FailsOnly (e : ε) (x : Attempt σ ε α) : Prop := ∀ s e', (perform x s).1 = .error e' → e' = e

theorem failsOnly_pure : FailsOnly e (pure a : Attempt σ ε α) := fun _ _ h => by cases h

theorem failsOnly_modify {f : σ → σ} : FailsOnly e (modify f : Attempt σ ε PUnit) := fun _ _ h => by cases h

theorem failsOnly_bind {x : Attempt σ ε α} (hx : FailsOnly e x)
    (hf : ∀ a, FailsOnly e (f a)) : FailsOnly e (x >>= f) := by
  intro s e' h
  rw [perform_bind] at h
  have hfirst := hx s
  revert h hfirst
  rcases perform x s with ⟨outcome,t⟩
  intro h hfirst
  cases outcome with
  | ok a => exact hf a t e' h
  | error first =>
    cases h
    exact hfirst _ rfl

theorem failsOnly_get {f : σ → Attempt σ ε α} (h : ∀ t, FailsOnly e (f t)) : FailsOnly e (get >>= f) :=
  fun s => h s s

theorem failsOnly_whenever {c : Bool} {x : Attempt σ ε PUnit} (h : FailsOnly e x) : FailsOnly e (whenever c x) := by
  cases c with
  | true => exact h
  | false => exact failsOnly_pure

theorem failsOnly_forM {f : ι → Attempt σ ε PUnit} {xs : List ι} (h : ∀ i, FailsOnly e (f i)) :
    FailsOnly e (xs.forM f) := by
  induction xs with
  | nil => exact failsOnly_pure
  | cons i rest ih => exact failsOnly_bind (h i) fun _ => ih

theorem Keeps.holds {x : Attempt σ ε α} (h : Keeps J E x) (hok : ∀ a s, J s → Q (.ok a) s)
    (herror : ∀ e s, E s → Q (.error e) s) : Holds J x Q := by
  intro s hs
  have hx := h s hs
  revert hx
  rcases perform x s with ⟨outcome,t⟩
  intro hx
  cases outcome with
  | ok a => exact hok a t hx
  | error e => exact herror e t hx

theorem Keeps.weaken {E' : σ → Prop} {x : Attempt σ ε α} (h : Keeps J E x) (hE : ∀ s, E s → E' s) : Keeps J E' x :=
  h.holds (fun _ _ hs => hs) fun _ => hE

theorem keeps_pure : Keeps J E (pure a : Attempt σ ε α) := holds_pure fun _ hs => hs

theorem keeps_throw (h : ∀ s, J s → E s) : Keeps J E (throw e : Attempt σ ε α) := holds_throw h

theorem keeps_modify {f : σ → σ} (h : ∀ s, J s → J (f s)) : Keeps J E (modify f : Attempt σ ε PUnit) := h

theorem keeps_bind {x : Attempt σ ε α} (hx : Keeps J E x) (hf : ∀ a, Keeps J E (f a)) :
    Keeps J E (x >>= f) :=
  holds_bind hx hf fun _ _ hs => hs

theorem keeps_get {f : σ → Attempt σ ε α} (h : ∀ t, J t → Keeps J E (f t)) : Keeps J E (get >>= f) :=
  fun s hs => h s hs s hs

theorem keeps_whenever {c : Bool} {x : Attempt σ ε PUnit} (h : Keeps J E x) : Keeps J E (whenever c x) := by
  cases c with
  | true => exact h
  | false => exact keeps_pure

/-- A value that is thrown away. -/
theorem keeps_void {x : Attempt σ ε α} (h : Keeps J E x) : Keeps J E (do let _ ← x; pure ⟨⟩ : Attempt σ ε PUnit) :=
  keeps_bind h fun _ => keeps_pure

theorem keeps_forM {f : ι → Attempt σ ε PUnit} {xs : List ι} (h : ∀ i ∈ xs, Keeps J E (f i)) :
    Keeps J E (xs.forM f) := by
  induction xs with
  | nil => exact keeps_pure
  | cons i rest ih =>
    exact keeps_bind (h i List.mem_cons_self) fun _ => ih fun j hj => h j (List.mem_cons_of_mem i hj)

section Atomic
variable {s : σ} {x : Attempt σ ε α}

/-- Success gives `Q`, an error leaves the state as it was. -/
def OrUnchanged (s : σ) (Q : α → σ → Prop) : Except ε α → σ → Prop
  | .ok a => Q a
  | .error _ => fun t => t = s

/-- From the state the computation succeeds with `Q` or changes nothing. -/
def Atomic (s : σ) (x : Attempt σ ε α) (Q : α → σ → Prop) : Prop := Holds (fun t => t = s) x (OrUnchanged s Q)

def Checks (s : σ) (x : Attempt σ ε α) (P : α → Prop) : Prop := Atomic s x fun a t => t = s ∧ P a

theorem atomic_pure {Q : α → σ → Prop} (h : Q a s) : Atomic s (pure a : Attempt σ ε α) Q := by
  rintro _ rfl
  exact h

theorem atomic_throw {Q : α → σ → Prop} : Atomic s (throw e : Attempt σ ε α) Q := fun _ h => h

/-- One change, and then the result. -/
theorem atomic_modify {Q : α → σ → Prop} {f : σ → σ} (h : Q a (f s)) :
    Atomic s (do modify f; pure a : Attempt σ ε α) Q := by
  rintro _ rfl
  exact h

theorem atomic_set {Q : PUnit → σ → Prop} {f : σ → σ} (h : Q ⟨⟩ (f s)) : Atomic s (modify f : Attempt σ ε PUnit) Q := by
  rintro _ rfl
  exact h

theorem atomic_get {Q : α → σ → Prop} {f : σ → Attempt σ ε α} (h : Atomic s (f s) Q) : Atomic s (get >>= f) Q := by
  rintro _ rfl
  exact h _ rfl

/-- A check before the rest. -/
theorem Checks.bind {P : α → Prop} {Q : β → σ → Prop} (hx : Checks s x P)
    (hf : ∀ a, P a → Atomic s (f a) Q) : Atomic s (x >>= f) Q := by
  exact holds_bind hx (fun a t h => hf a h.2 t h.1) fun _ _ h => h

theorem Atomic.map {Q : α → σ → Prop} {Q' : β → σ → Prop} {f : α → β} (h : Atomic s x Q)
    (hQ : ∀ a t, Q a t → Q' (f a) t) : Atomic s (do let a ← x; pure (f a)) Q' := by
  exact holds_bind h (fun a => holds_pure fun t ht => hQ a t ht) fun _ _ ht => ht

theorem Atomic.mono {Q Q' : α → σ → Prop} (h : Atomic s x Q) (hQ : ∀ a t, Q a t → Q' a t) : Atomic s x Q' := by
  refine Holds.mono h (fun _ ht => ht) fun outcome t ht => ?_
  cases outcome with
  | ok a => exact hQ a t ht
  | error e => exact ht

end Atomic

end Unpeel.Fallible
