import Mathlib.Data.List.Basic

/-! # Runs of a partial step function

A system is a step function from a state and an action to the next state, with
`none` where the action is not enabled. All nondeterminism (the schedule, the
answers of the kernel, the messages that arrive) is in the action, so a run is
determined by its start and its list of actions.
-/
namespace Unpeel.Runs
variable {σ α : Type*} (step : σ → α → Option σ)
variable {s : σ} {as bs : List α} {P : σ → Prop} {ok : σ → α → Prop}
variable {u : σ}

def run (s : σ) : List α → Option σ
  | [] => some s
  | a :: as => (step s a).bind (fun t => run t as)

def Always (P : σ → Prop) (s : σ) : List α → Prop
  | [] => P s
  | a :: as => P s ∧ ∀ t, step s a = some t → Always P t as

def Guarded (ok : σ → α → Prop) (s : σ) : List α → Prop
  | [] => True
  | a :: as => ∀ t, step s a = some t → ok s a ∧ Guarded ok t as

def Meets (ok : σ → α → Prop) (s : σ) : List α → Prop
  | [] => True
  | a :: as => ok s a ∧ ∀ t, step s a = some t → Meets ok t as

variable {step}

@[simp] theorem run_nil (s : σ) : run step s [] = some s := rfl

theorem run_cons {a : α} :
    run step s (a :: as) = some u ↔ ∃ t, step s a = some t ∧ run step t as = some u := by
  simp [run, Option.bind_eq_some_iff]

theorem run_append :
    run step s (as ++ bs) = some u ↔ ∃ t, run step s as = some t ∧ run step t bs = some u := by
  induction as generalizing s with
  | nil => simp
  | cons a as ih =>
    simp only [List.cons_append, run_cons, ih]
    constructor
    · rintro ⟨t,ht,v,hv,hu⟩
      exact ⟨v,⟨t,ht,hv⟩,hu⟩
    · rintro ⟨v,⟨t,ht,hv⟩,hu⟩
      exact ⟨t,ht,v,hv,hu⟩

theorem Always.head (h : Always step P s as) : P s := by
  cases as with
  | nil => exact h
  | cons a as => exact h.1

/-- `Always` read as a statement about the states after each prefix. -/
theorem always_iff :
    Always step P s as ↔ ∀ bs cs t, as = bs ++ cs → run step s bs = some t → P t := by
  induction as generalizing s with
  | nil =>
    constructor
    · intro h bs cs t he hr
      obtain ⟨rfl,rfl⟩ := List.append_eq_nil_iff.mp he.symm
      cases hr
      exact h
    · intro h
      exact h [] [] s rfl rfl
  | cons a as ih =>
    constructor
    · intro h bs cs t he hr
      cases bs with
      | nil =>
        cases hr
        exact h.1
      | cons b bs =>
        simp only [List.cons_append, List.cons.injEq] at he
        obtain ⟨rfl,he⟩ := he
        obtain ⟨u,hu,hr⟩ := run_cons.mp hr
        exact ih.mp (h.2 u hu) bs cs t he hr
    · intro h
      refine ⟨h [] (a :: as) s rfl rfl,?_⟩
      intro t ht
      apply ih.mpr
      intro bs cs u he hr
      exact h (a :: bs) cs u (by rw [he]; rfl) (run_cons.mpr ⟨t,ht,hr⟩)

theorem Guarded.and {ok' : σ → α → Prop} (h : Guarded step ok s as)
    (g : Guarded step ok' s as) : Guarded step (fun s a => ok s a ∧ ok' s a) s as := by
  induction as generalizing s with
  | nil => trivial
  | cons a as ih => exact fun t ht => ⟨⟨(h t ht).1,(g t ht).1⟩,ih (h t ht).2 (g t ht).2⟩

/-- A condition that the actions meet by themselves. -/
theorem guarded_of_forall (h : ∀ a ∈ as, ∀ s, ok s a) (s : σ) :
    Guarded step ok s as := by
  induction as generalizing s with
  | nil => trivial
  | cons a as ih =>
    intro t _
    exact ⟨h a (by simp) s,ih (fun b hb => h b (by simp [hb])) t⟩

theorem Guarded.append (h : Guarded step ok s as)
    (hr : run step s as = some u) (g : Guarded step ok u bs) : Guarded step ok s (as ++ bs) := by
  induction as generalizing s with
  | nil =>
    cases hr
    exact g
  | cons a as ih =>
    intro t ht
    obtain ⟨v,hv,hr⟩ := run_cons.mp hr
    have hvt : v = t := Option.some.inj (hv.symm.trans ht)
    subst hvt
    exact ⟨(h v hv).1,ih (h v hv).2 hr⟩

theorem Guarded.rest (h : Guarded step ok s (as ++ bs)) (hr : run step s as = some u) : Guarded step ok u bs := by
  induction as generalizing s with
  | nil =>
    cases hr
    exact h
  | cons a as ih =>
    obtain ⟨v,hv,hr⟩ := run_cons.mp hr
    exact ih (h v hv).2 hr

theorem Guarded.front (h : Guarded step ok s (as ++ bs)) :
    Guarded step ok s as := by
  induction as generalizing s with
  | nil => trivial
  | cons a as ih => exact fun t ht => ⟨(h t ht).1,ih (h t ht).2⟩

/-- With an invariant, one condition on the steps gives another. -/
theorem Guarded.mono {ok ok' : σ → α → Prop} {J : σ → Prop}
    (hJ : ∀ s a t, J s → ok s a → step s a = some t → J t) (h : ∀ s a, J s → ok s a → ok' s a)
    {s : σ} (hs : J s) {as : List α} (hg : Guarded step ok s as) : Guarded step ok' s as := by
  induction as generalizing s with
  | nil => trivial
  | cons a as ih => exact fun t ht => ⟨h s a hs (hg t ht).1,ih (hJ s a t hs (hg t ht).1 ht) (hg t ht).2⟩

/-- Two conditions that agree where an invariant holds agree on runs, if they keep it. -/
theorem meets_congr {ok ok' : σ → α → Prop} {J : σ → Prop} (hJ : ∀ s a t, J s → ok s a → step s a = some t → J t)
    (h : ∀ s a, J s → (ok s a ↔ ok' s a)) {s : σ} (hs : J s) (as : List α) : Meets step ok s as ↔ Meets step ok' s as := by
  induction as generalizing s with
  | nil => exact Iff.rfl
  | cons a as ih =>
    constructor
    · rintro ⟨hok,hrest⟩
      exact ⟨(h s a hs).mp hok,fun t ht => (ih (hJ s a t hs hok ht)).mp (hrest t ht)⟩
    · rintro ⟨hok',hrest⟩
      have hok := (h s a hs).mpr hok'
      exact ⟨hok,fun t ht => (ih (hJ s a t hs hok ht)).mpr (hrest t ht)⟩

/-- A preorder that every step respects relates the ends of a run. -/
theorem Guarded.relates {ok : σ → α → Prop} {R : σ → σ → Prop} (hrefl : ∀ s, R s s)
    (htrans : ∀ s t u, R s t → R t u → R s u) (hstep : ∀ s a t, ok s a → step s a = some t → R s t)
    {s u : σ} {as : List α} (hg : Guarded step ok s as) (hr : run step s as = some u) : R s u := by
  induction as generalizing s with
  | nil =>
    cases hr
    exact hrefl _
  | cons a as ih =>
    obtain ⟨t,ht,hr⟩ := run_cons.mp hr
    exact htrans s t u (hstep s a t (hg t ht).1 ht) (ih (hg t ht).2 hr)

/-- Whether a given run meets a decidable condition is decidable. -/
instance decidableGuarded {ok : σ → α → Prop} [∀ s a, Decidable (ok s a)] :
    ∀ (s : σ) (as : List α), Decidable (Guarded step ok s as)
  | _, [] => isTrue trivial
  | s, a :: as =>
    match h : step s a with
    | none => isTrue (by intro t ht; rw [h] at ht; cases ht)
    | some t =>
      let _ : Decidable (Guarded step ok t as) := decidableGuarded t as
      decidable_of_iff (ok s a ∧ Guarded step ok t as)
        ⟨fun hg u hu => by cases h.symm.trans hu; exact hg,fun hg => hg t h⟩

/-- So is whether a decidable property holds throughout. -/
instance decidableAlways {P : σ → Prop} [DecidablePred P] :
    ∀ (s : σ) (as : List α), Decidable (Always step P s as)
  | s, [] => inferInstanceAs (Decidable (P s))
  | s, a :: as =>
    match h : step s a with
    | none => decidable_of_iff (P s) ⟨fun hP => ⟨hP,fun t ht => by rw [h] at ht; cases ht⟩,fun hA => hA.1⟩
    | some t =>
      let _ : Decidable (Always step P t as) := decidableAlways t as
      decidable_of_iff (P s ∧ Always step P t as)
        ⟨fun hA => ⟨hA.1,fun u hu => by cases h.symm.trans hu; exact hA.2⟩,fun hA => ⟨hA.1,hA.2 t h⟩⟩

/-- The invariant rule for conditioned runs: `J` survives every step that meets
the condition, and gives `P`. -/
theorem always_of_guarded {ok : σ → α → Prop} {J P : σ → Prop}
    (hJ : ∀ s a t, J s → ok s a → step s a = some t → J t) (hP : ∀ s, J s → P s)
    {s : σ} (hs : J s) {as : List α} (hg : Guarded step ok s as) : Always step P s as := by
  induction as generalizing s with
  | nil => exact hP s hs
  | cons a as ih =>
    exact ⟨hP s hs,fun t ht => ih (hJ s a t hs (hg t ht).1 ht) (hg t ht).2⟩

/-- The invariant rule for all runs. -/
theorem always_of_invariant {J P : σ → Prop} (hJ : ∀ s a t, J s → step s a = some t → J t)
    (hP : ∀ s, J s → P s) {s : σ} (hs : J s) (as : List α) : Always step P s as := by
  induction as generalizing s with
  | nil => exact hP s hs
  | cons a as ih => exact ⟨hP s hs,fun t ht => ih (hJ s a t hs ht)⟩

/-- Two properties agree on the runs of which one of them keeps the invariant. -/
theorem always_congr {J P Q : σ → Prop} (hJ : ∀ s a t, J s → Q s → step s a = some t → J t)
    (hPQ : ∀ s, J s → (P s ↔ Q s)) {s : σ} (hs : J s) (as : List α) : Always step P s as ↔ Always step Q s as := by
  induction as generalizing s with
  | nil => exact hPQ s hs
  | cons a as ih =>
    constructor
    · rintro ⟨hP,hrest⟩
      have hQ := (hPQ s hs).mp hP
      exact ⟨hQ,fun t ht => (ih (hJ s a t hs hQ ht)).mp (hrest t ht)⟩
    · rintro ⟨hQ,hrest⟩
      exact ⟨(hPQ s hs).mpr hQ,fun t ht => (ih (hJ s a t hs hQ ht)).mpr (hrest t ht)⟩

theorem Always.last {t : σ} (h : Always step P s as) (hr : run step s as = some t) :
    P t :=
  always_iff.mp h as [] t (List.append_nil as).symm hr

/-- Where the condition is exact at each step, it is exact for whole runs: the
property holds throughout if and only if every step taken met the condition. The
invariant need not survive the step that breaks the property. -/
theorem always_iff_guarded {ok : σ → α → Prop} {J P : σ → Prop}
    (hJ : ∀ s a t, J s → ok s a → step s a = some t → J t) (hP : ∀ s, J s → P s)
    (hok : ∀ s a t, J s → step s a = some t → P t → ok s a)
    {s : σ} (hs : J s) (as : List α) : Always step P s as ↔ Guarded step ok s as := by
  refine ⟨fun h => ?_,always_of_guarded hJ hP hs⟩
  induction as generalizing s with
  | nil => trivial
  | cons a as ih =>
    intro t ht
    have hst := hok s a t hs ht (h.2 t ht).head
    exact ⟨hst,ih (hJ s a t hs hst ht) (h.2 t ht)⟩

end Unpeel.Runs
