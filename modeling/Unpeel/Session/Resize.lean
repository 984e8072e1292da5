import Unpeel.Foundation.Runs

/-! # Resizing the PTY and the viewport

A `Resize` runs on a thread of its own. It sets the size of the PTY under the
lock of the runtime, lets go of it, and reflows the viewport under the lock of the
viewport, so the reflows of two commands can come in the other order than their
PTY sizes. A size the PTY already has is not reflowed again.
-/
namespace Unpeel.Session
open Runs

structure Grid where
  cols : ℕ
  rows : ℕ
deriving DecidableEq

/-- `TerminalViewportState::resize`. -/
def Grid.resize (viewport : Grid) (cols rows : ℕ) : Grid :=
  if max cols 1 = viewport.cols ∧ max rows 1 = viewport.rows then viewport else ⟨max cols 1,max rows 1⟩

/-- A Session with its `Resize` commands: the size the kernel has, the size the
runtime has on record, the viewport, and the commands that have still to reflow. -/
structure ResizeState where
  kernel : Grid
  pty : Grid
  viewport : Grid
  reflows : ℕ → Option Grid

inductive ResizeEvent where
  | resize (thread cols rows : ℕ) (applied : Bool)
  | reflow (thread : ℕ)

def resizeStep (s : ResizeState) : ResizeEvent → Option ResizeState
  | .resize thread cols rows applied =>
    if s.reflows thread ≠ none then none
    else if s.pty.cols = cols ∧ s.pty.rows = rows then some s
    else if applied = true then
      some { s with
        kernel := ⟨cols,rows⟩
        pty := ⟨cols,rows⟩
        reflows := Function.update s.reflows thread (some ⟨cols,rows⟩) }
    else some s
  | .reflow thread =>
    match s.reflows thread with
    | none => none
    | some size => some { s with
        viewport := s.viewport.resize size.cols size.rows
        reflows := Function.update s.reflows thread none }

def opened (initialCols initialRows : Option ℕ) : ResizeState :=
  let size : Grid := ⟨(initialCols.filter (2 ≤ ·)).getD 80,(initialRows.filter (2 ≤ ·)).getD 24⟩
  ⟨size,size,size,fun _ => none⟩

namespace ResizeState

/-- Once every command is answered, the viewport has the size of the PTY, which
is the size the kernel was last given. -/
def GridsAgree (s : ResizeState) : Prop :=
  (∀ thread, s.reflows thread = none) → s.viewport = s.pty ∧ s.pty = s.kernel

/-- A reflow brings the viewport to the size the PTY has by now, or another
command has still to reflow. -/
def ReflowsInOrder (s : ResizeState) : ResizeEvent → Prop
  | .reflow thread => ∀ size, s.reflows thread = some size →
      (max size.cols 1 = s.pty.cols ∧ max size.rows 1 = s.pty.rows) ∨
        ∃ other, other ≠ thread ∧ s.reflows other ≠ none
  | _ => True

/-- The kernel has the size on record, and a viewport of another size is about to
be reflowed. -/
structure Tracks (s : ResizeState) : Prop where
  kernel : s.pty = s.kernel
  viewport : (∀ thread, s.reflows thread = none) → s.viewport = s.pty

variable {s t : ResizeState}

theorem Tracks.gridsAgree (h : Tracks s) : GridsAgree s := fun hall => ⟨h.viewport hall,h.kernel⟩

theorem grid_resize (viewport : Grid) (cols rows : ℕ) :
    viewport.resize cols rows = ⟨max cols 1,max rows 1⟩ := by
  unfold Grid.resize
  split
  · next h => rw [h.1, h.2]
  · rfl

theorem none_of_last {thread : ℕ} (h : ¬∃ other, other ≠ thread ∧ s.reflows other ≠ none) (other : ℕ) :
    Function.update s.reflows thread none other = none := by
  by_cases ho : other = thread
  · rw [ho, Function.update_self]
  · rw [Function.update_of_ne ho]
    by_contra hn
    exact h ⟨other,ho,hn⟩

theorem Tracks.step {a : ResizeEvent} (h : Tracks s) (hok : ReflowsInOrder s a)
    (hs : resizeStep s a = some t) : Tracks t := by
  cases a with
  | resize thread cols rows applied =>
    simp only [resizeStep] at hs
    split_ifs at hs
    · exact Option.some.inj hs ▸ h
    · rw [Option.some.injEq] at hs
      subst hs
      refine ⟨rfl,fun hall => ?_⟩
      have hmine : Function.update s.reflows thread (some ⟨cols,rows⟩) thread = none := hall thread
      rw [Function.update_self] at hmine
      cases hmine
    · exact Option.some.inj hs ▸ h
  | reflow thread =>
    simp only [resizeStep] at hs
    split at hs
    · cases hs
    · next size hsize =>
      rw [Option.some.injEq] at hs
      subst hs
      refine ⟨h.kernel,fun hall => ?_⟩
      rcases hok size hsize with heq | ⟨other,ho,hother⟩
      · simp only [grid_resize, heq]
      · have hnone : Function.update s.reflows thread none other = none := hall other
        rw [Function.update_of_ne ho] at hnone
        exact absurd hnone hother

theorem inOrder_of_gridsAgree {a : ResizeEvent} (hs : resizeStep s a = some t) (ht : GridsAgree t) :
    ReflowsInOrder s a := by
  cases a with
  | resize thread cols rows applied => trivial
  | reflow thread =>
    intro size hsize
    simp only [resizeStep, hsize, Option.some.injEq] at hs
    subst hs
    by_cases hother : ∃ other, other ≠ thread ∧ s.reflows other ≠ none
    · exact .inr hother
    · have hv := (ht (none_of_last hother)).1
      rw [grid_resize] at hv
      exact .inl ⟨congrArg Grid.cols hv,congrArg Grid.rows hv⟩

end ResizeState

open ResizeState in
/-- In every interleaving of `Resize` commands, the grids agree whenever all
commands are answered exactly if the last of several reflows is always that of the
size the PTY has, and that size is not degenerate. -/
theorem grids_agree_iff (cols rows : Option ℕ) (events : List ResizeEvent) :
    Always resizeStep GridsAgree (opened cols rows) events ↔
      Guarded resizeStep ReflowsInOrder (opened cols rows) events :=
  always_iff_guarded (fun _ _ _ h hok hs => h.step hok hs) (fun _ => Tracks.gridsAgree)
    (fun _ _ _ _ => inOrder_of_gridsAgree) ⟨rfl,fun _ => rfl⟩ events

/-- Two commands resize the PTY to 100 and then to 120 columns, and the second one
reflows first: the viewport stays at 100. -/
theorem reflows_cross :
    ¬Always resizeStep ResizeState.GridsAgree (opened none none)
      [.resize 0 100 30 true,.resize 1 120 40 true,.reflow 1,.reflow 0] := by
  intro h
  have hend := h.last rfl
  have hview := (hend (fun thread => by
    by_cases h0 : thread = 0 <;> by_cases h1 : thread = 1 <;> simp [Function.update, opened, h0, h1])).1
  exact absurd (congrArg Grid.cols hview) (by decide)

end Unpeel.Session
