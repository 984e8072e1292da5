import Unpeel.Core.HandoffInvariant

/-! # A handoff that does not commit

When `Reactor::handoff` returns an error, the leaving core is meant to carry on
exactly where it paused. What stands between that and the code: the jobs of the
Session whose retirement timed out, jobs that had ended by themselves and are
built again, and the output that the new core has already read.
-/
namespace Unpeel.Core
open Session Session.OutputQueryScanner Runs List

namespace Takeover
variable {table : List (Option CoreSession)} {s s' : Takeover}
variable {cause : HandoffFailure} {error : String} {h : CoreSession}
variable {slot : ℕ}

end Takeover

variable {table : List (Option CoreSession)} {s t : Takeover}

theorem start_inv (table : List (Option CoreSession)) (jobs : JobTable) (queue : List TimerMsg)
    (unread : ℕ → List UInt8) : HandoffInv table (Takeover.start table jobs queue unread) := by
  refine Quiet.inv ?_ (OldPhase.quiesce_deciding _ _) (fun slot h hh => ⟨h,hh⟩)
  constructor
  · exact fun slot h0 hh => ⟨h0,hh,.refl h0⟩
  · exact fun _ => rfl
  · exact fun _ => rfl
  · intro slots hs slot hm
    simp only [Takeover.start] at hs
    generalize (List.range table.length).filter (fun slot => (table[slot]?.join).isSome) = hosted at hs
    cases hosted with
    | nil =>
      cases hs
      cases hm
    | cons k ks => cases hs
  · simp only [Takeover.start]
    rw [OldPhase.quiesce_unpaused, nil_append]
    exact nodup_range.filter _
  · exact fun _ hm => absurd hm not_mem_nil
  · intro slot hs
    simp only [Takeover.start] at hs
    rw [OldPhase.quiesce_retiringSlot] at hs
    cases hs
  · exact fun _ _ _ => ⟨rfl,rfl⟩

end Unpeel.Core
