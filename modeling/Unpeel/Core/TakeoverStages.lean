import Unpeel.Core.Handoff

/-! # The stages of a takeover

What the two cores have said and done so far, and the steps of either one as they
lead from stage to stage.
-/
namespace Unpeel.Core
open Session List

def ReadByOld (s : Takeover) (slot : ℕ) : Prop :=
  s.old ≠ .exited ∧ ∃ h, s.sessions slot = some h ∧ h.io.ptyReadInterest = true

def ReadByNew (s : Takeover) (slot : ℕ) : Prop :=
  s.new ≠ .exited ∧ ∃ io, s.adopted slot = some io ∧ io.ptyReadInterest = true

/-- No Session has two readers, and none is left without a core that hosts it
while one of the two runs. A paused Session of an undecided core is hosted. -/
structure Agreement (table : List (Option CoreSession)) (s : Takeover) : Prop where
  oneReader : ∀ slot, ¬(ReadByOld s slot ∧ ReadByNew s slot)
  hosted : ∀ slot h0, table[slot]?.join = some h0 → s.old ≠ .exited ∨ s.new ≠ .exited →
    (s.old ≠ .exited ∧ (s.sessions slot).isSome) ∨ (s.new ≠ .exited ∧ (s.adopted slot).isSome)

def HostsNothing (s : Takeover) : Prop := s.new = .exited ∨ ∀ slot, s.adopted slot = none

/-- The old core gives up only against a new core that hosts nothing, the new core
adopts nothing after that, and does not end once it has sent its commit. -/
def InTime (s : Takeover) : TakeoverAction → Prop
  | .fails _ => HostsNothing s
  | .newAdopts _ => ¬s.old.GaveUp
  | .newExits => s.new ≠ .serving
  | _ => True

namespace Takeover

def toExport (s : Takeover) : List ℕ :=
  match s.old with
  | .quiescing slots => s.paused ++ slots
  | .retiring slot slots => s.paused ++ slot :: slots
  | .exporting slots => slots
  | _ => []

def sessionMessage (e : ℕ × HandoffExport) : ToNew := .session e.1 e.2

inductive Stage (s : Takeover) : Prop where
  | unsent (hn : s.new = .waiting) (ha : ∀ slot, s.adopted slot = none) (hr : s.toOld = [])
      (hw : s.toNew = []) (ho : ∀ es, s.old ≠ .sending es)
  | sent (todo mid : List (ℕ × HandoffExport)) (hn : s.new = .waiting) (ha : ∀ slot, s.adopted slot = none)
      (hr : s.toOld = []) (ho : s.old = .sending todo) (he : s.exports = mid ++ todo)
      (hw : s.toNew = .header s.exports.length :: mid.map sessionMessage)
  | adopting (todo done mid : List (ℕ × HandoffExport)) (left n : ℕ) (hn : s.new = .adopting left n)
      (ha : ∀ e ∈ done, (s.adopted e.1).isSome) (hr : s.toOld = []) (ho : s.old = .sending todo)
      (he : s.exports = done ++ (mid ++ todo)) (hw : s.toNew = mid.map sessionMessage)
      (hl : left = mid.length + todo.length)
  | recorded (n : ℕ) (hn : s.new = .recorded n) (ha : ∀ e ∈ s.exports, (s.adopted e.1).isSome)
      (hr : s.toOld = []) (ho : s.old = .sending [])
  | serving (hn : s.new = .serving) (ha : ∀ e ∈ s.exports, (s.adopted e.1).isSome)
      (ho : s.old = .sending [])
  | failed (hn : s.new = .leaving ∨ s.new = .exited) (hr : ∀ n, .commit n ∉ s.toOld)

/-- The two cores while the old one has not decided: what was exported is paused,
and the new core has nothing else. -/
structure Undecided (table : List (Option CoreSession)) (s : Takeover) : Prop where
  hosted : ∀ slot h0, table[slot]?.join = some h0 → (s.sessions slot).isSome
  covered : ∀ slot h0, table[slot]?.join = some h0 → slot ∈ s.exports.map Prod.fst ∨ slot ∈ s.toExport
  paused : ∀ slot ∈ s.exports.map Prod.fst, ∀ h, s.sessions slot = some h → h.io.ptyReadInterest = false
  adopted : ∀ slot, (s.adopted slot).isSome → slot ∈ s.exports.map Prod.fst
  stage : s.Stage

structure AgreementInv (table : List (Option CoreSession)) (s : Takeover) : Prop where
  known : ∀ slot, (s.sessions slot).isSome → ∃ h0, table[slot]?.join = some h0
  undecided : s.old.Deciding → s.Undecided table
  gaveUp : s.old.GaveUp → HostsNothing s ∧ ∀ slot h0, table[slot]?.join = some h0 → (s.sessions slot).isSome
  left : ¬s.old.Deciding → ¬s.old.GaveUp → s.new = .serving ∧ ∀ slot h0, table[slot]?.join = some h0 →
    s.sessions slot = none ∧ (s.adopted slot).isSome

variable {table : List (Option CoreSession)} {s t : Takeover}

theorem AgreementInv.agreement (h : s.AgreementInv table) : Agreement table s := by
  by_cases hd : s.old.Deciding
  · have hu := h.undecided hd
    have ho : s.old ≠ .exited := by
      intro he
      rw [he] at hd
      exact hd
    refine ⟨?_,fun slot h0 hh _ => .inl ⟨ho,hu.hosted slot h0 hh⟩⟩
    rintro slot ⟨⟨_,c,hc,hr⟩,_,io,hio,_⟩
    rw [hu.paused slot (hu.adopted slot (by simp [hio])) c hc] at hr
    cases hr
  by_cases hg : s.old.GaveUp
  · obtain ⟨hn,hh⟩ := h.gaveUp hg
    have ho : s.old ≠ .exited := by
      intro he
      rw [he] at hg
      exact hg
    refine ⟨?_,fun slot h0 ht _ => .inl ⟨ho,hh slot h0 ht⟩⟩
    rintro slot ⟨_,hne,io,hio,_⟩
    rcases hn with hn | hn
    · exact hne hn
    · rw [hn slot] at hio
      cases hio
  · obtain ⟨hn,hh⟩ := h.left hd hg
    refine ⟨?_,fun slot h0 ht _ => .inr ⟨by rw [hn]; simp,(hh slot h0 ht).2⟩⟩
    rintro slot ⟨⟨_,c,hc,_⟩,_⟩
    obtain ⟨h0,ht⟩ := h.known slot (by simp [hc])
    rw [(hh slot h0 ht).1] at hc
    cases hc

section OldSteps
variable {slots : List ℕ}
variable {sockets : ℕ → List WriteResult} {slot : ℕ}

theorem Stage.earlier (h : s.Stage) (ho : ∀ es, s.old ≠ .sending es) (ho' : ∀ es, t.old ≠ .sending es)
    (hn : t.new = s.new) (ha : t.adopted = s.adopted) (hr : t.toOld = s.toOld) (hw : t.toNew = s.toNew) :
    t.Stage := by
  cases h with
  | unsent hn' ha' hr' hw' _ =>
    exact .unsent (hn.trans hn') (fun slot => by rw [ha]; exact ha' slot) (hr.trans hr') (hw.trans hw') ho'
  | failed hn' hr' => exact .failed (by rw [hn]; exact hn') (by rw [hr]; exact hr')
  | sent _ _ _ _ _ he => exact absurd he (ho _)
  | adopting _ _ _ _ _ _ _ _ he => exact absurd he (ho _)
  | recorded _ _ _ _ he => exact absurd he (ho _)
  | serving _ _ he => exact absurd he (ho _)

theorem quiesce_not_sending (paused slots : List ℕ) (es : List (ℕ × HandoffExport)) :
    quiesce paused slots ≠ .sending es := by
  cases slots <;> exact fun h => by cases h

theorem exportHandoff_reads {io p : SessionIo} {now : ℕ} {e : HandoffExport}
    (h : io.exportHandoff now sockets = (p,.ok e)) : p.ptyReadInterest = false := by
  obtain ⟨_,_,_,rfl,_⟩ := SessionIo.exportHandoff_ok h
  obtain ⟨_,_,_,_,hp,_⟩ := SessionIo.onlyClients_pauseForHandoff io now sockets
  rw [hp]
  unfold SessionIo.setPtyInterest
  split
  · next hi => exact hi.1
  · rfl

theorem Undecided.inv (h : s.Undecided table) (hd : s.old.Deciding)
    (hk : ∀ slot, (s.sessions slot).isSome → ∃ h0, table[slot]?.join = some h0) : s.AgreementInv table :=
  ⟨hk,fun _ => h,fun hg => absurd hg hd.not_gaveUp,fun hn => absurd hd hn⟩

theorem setIo_isSome (s : Takeover) (slot k : ℕ) (io : SessionIo) :
    ((s.setIo slot io).sessions k).isSome = (s.sessions k).isSome := by
  simp only [setIo, Function.update_apply]
  split
  · next h => rw [h, Option.isSome_map]
  · rfl

theorem AgreementInv.flushed {timer : Timer} (h : s.AgreementInv table) (ho : s.old = .quiescing (slot :: slots)) :
    AgreementInv table { s with old := .retiring slot slots, timer := timer } := by
  have hu := h.undecided (by rw [ho]; trivial)
  refine Undecided.inv { hu with covered := ?_, stage := ?_ } trivial h.known
  · intro k h0 hh
    have hc := hu.covered k h0 hh
    simp only [toExport, ho] at hc ⊢
    exact hc
  · exact hu.stage.earlier (by simp [ho]) (by simp) rfl rfl rfl rfl

theorem AgreementInv.retired (h : s.AgreementInv table) (ho : s.old = .retiring slot slots) :
    AgreementInv table { s with old := quiesce (s.paused ++ [slot]) slots, paused := s.paused ++ [slot] } := by
  have hu := h.undecided (by rw [ho]; trivial)
  refine Undecided.inv { hu with covered := ?_, stage := ?_ } (OldPhase.quiesce_deciding _ _) h.known
  · intro k h0 hh
    refine (hu.covered k h0 hh).imp_right (fun hc => ?_)
    simp only [toExport, ho] at hc ⊢
    cases slots with
    | nil => exact hc
    | cons a as => simpa [quiesce] using hc
  · exact hu.stage.earlier (by simp [ho]) (quiesce_not_sending _ _) rfl rfl rfl rfl

theorem AgreementInv.exported {now : ℕ} {c : CoreSession} {io : SessionIo}
    {e : HandoffExport} (h : s.AgreementInv table)
    (ho : s.old = .exporting (slot :: slots)) (hc : s.sessions slot = some c)
    (he : c.io.exportHandoff now sockets = (io,.ok e)) :
    AgreementInv table { s.setIo slot io with old := .exporting slots, exports := s.exports ++ [(slot,e)] } := by
  have hu := h.undecided (by rw [ho]; trivial)
  refine Undecided.inv ⟨?_,?_,?_,?_,?_⟩ trivial ?_
  · intro k h0 hh
    exact (setIo_isSome s slot k io).trans (hu.hosted k h0 hh)
  · intro k h0 hh
    have hc := hu.covered k h0 hh
    simp only [toExport, ho, map_append, mem_append, mem_cons] at hc ⊢
    rcases hc with hc | rfl | hc
    · exact .inl (.inl hc)
    · exact .inl (.inr (by simp))
    · exact .inr hc
  · intro k hk d hd
    simp only [setIo, Function.update_apply] at hd
    split at hd
    · rw [hc] at hd
      cases hd
      exact exportHandoff_reads he
    · next hne =>
      rw [map_append, mem_append] at hk
      rcases hk with hk | hk
      · exact hu.paused k hk d hd
      · exact absurd (by simpa using hk) hne
  · intro k hk
    rw [map_append]
    exact mem_append_left _ (hu.adopted k hk)
  · exact hu.stage.earlier (by simp [ho]) (by simp) rfl rfl rfl rfl
  · intro k hk
    exact h.known k ((setIo_isSome s slot k io).symm.trans hk)

theorem AgreementInv.sentHeader (h : s.AgreementInv table) (ho : s.old = .exporting []) :
    AgreementInv table { s with old := .sending s.exports, toNew := s.toNew ++ [.header s.exports.length] } := by
  have hu := h.undecided (by rw [ho]; trivial)
  refine Undecided.inv { hu with covered := ?_, stage := ?_ } trivial h.known
  · intro k h0 hh
    have hc := hu.covered k h0 hh
    simp only [toExport, ho] at hc ⊢
    exact hc
  · cases hu.stage with
    | unsent hn ha hr hw _ => exact .sent s.exports [] hn ha hr rfl rfl (by simp [hw])
    | failed hn hr => exact .failed hn hr
    | sent _ _ _ _ _ he | adopting _ _ _ _ _ _ _ _ he | recorded _ _ _ _ he | serving _ _ he => cases ho.symm.trans he

theorem AgreementInv.sentSession {e : ℕ × HandoffExport} {es : List (ℕ × HandoffExport)}
    (h : s.AgreementInv table) (ho : s.old = .sending (e :: es)) :
    AgreementInv table { s with old := .sending es, toNew := s.toNew ++ [.session e.1 e.2] } := by
  have hu := h.undecided (by rw [ho]; trivial)
  refine Undecided.inv { hu with covered := ?_, stage := ?_ } trivial h.known
  · intro k h0 hh
    have hc := hu.covered k h0 hh
    simp only [toExport, ho] at hc ⊢
    exact hc
  · cases hu.stage with
    | unsent _ _ _ _ hne => exact absurd ho (hne _)
    | sent todo mid hn ha hr he hx hw =>
      cases ho.symm.trans he
      exact .sent es (mid ++ [e]) hn ha hr rfl (by simp [hx]) (by simp [hw, sessionMessage])
    | adopting todo done mid left n hn ha hr he hx hw hl =>
      cases ho.symm.trans he
      refine .adopting es done (mid ++ [e]) left n hn ha hr rfl (by simp [hx]) (by simp [hw, sessionMessage]) ?_
      simp only [length_append, length_cons, length_nil] at hl ⊢
      omega
    | recorded _ _ _ _ he | serving _ _ he => cases ho.symm.trans he
    | failed hn hr => exact .failed hn hr

/-- The commit has arrived, so the new core has everything and is serving. -/
theorem AgreementInv.committed {n : ℕ} {rest : List ToOld} (h : s.AgreementInv table)
    (ho : s.old = .sending []) (hr : s.toOld = .commit n :: rest) : AgreementInv table s.commit := by
  have hu := h.undecided (by rw [ho]; trivial)
  have hall : ∀ slot h0, table[slot]?.join = some h0 → slot ∈ s.exports.map Prod.fst := by
    intro slot h0 hh
    have hc := hu.covered slot h0 hh
    simp only [toExport, ho] at hc
    exact hc.resolve_right not_mem_nil
  obtain ⟨hn,ha⟩ : s.new = .serving ∧ ∀ e ∈ s.exports, (s.adopted e.1).isSome := by
    cases hu.stage with
    | serving hn ha _ => exact ⟨hn,ha⟩
    | failed _ hno => exact absurd (by simp [hr]) (hno n)
    | unsent _ _ hnil | sent _ _ _ _ hnil | adopting _ _ _ _ _ _ _ hnil | recorded _ _ _ hnil => cases hr.symm.trans hnil
  refine ⟨?_,fun hd => absurd hd id,fun hg => absurd hg id,fun _ _ => ⟨hn,?_⟩⟩
  · intro slot hs
    simp only [commit] at hs
    split at hs
    · cases hs
    · exact h.known slot hs
  · intro slot h0 hh
    have hm := hall slot h0 hh
    refine ⟨by simp [commit, hm],?_⟩
    obtain ⟨e,he,rfl⟩ := mem_map.mp hm
    exact ha e he

/-- The old core gives up against a new core that hosts nothing. -/
theorem AgreementInv.abandon {cause : HandoffFailure} {error : String} {s' : Takeover}
    (h : s.AgreementInv table) (hf : s.failure cause = some (s',error)) (hn : HostsNothing s) :
    AgreementInv table (s'.abandon error) := by
  obtain ⟨hd,hs⟩ := failure_cases hf
  have hu := h.undecided hd
  have same : s'.new = s.new ∧ s'.adopted = s.adopted ∧ ∀ k, (s'.sessions k).isSome = (s.sessions k).isSome := by
    rcases hs with rfl | ⟨k,_,_,io,_,_,_,_,_,rfl⟩
    · exact ⟨rfl,rfl,fun _ => rfl⟩
    · exact ⟨rfl,rfl,fun j => setIo_isSome s k j io⟩
  have after : ∀ k, ((s'.abandon error).sessions k).isSome = (s.sessions k).isSome := by
    intro k
    refine Eq.trans ?_ (same.2.2 k)
    simp only [Takeover.abandon]
    split
    · rw [Option.isSome_map]
    · rfl
  refine ⟨?_,fun hd => absurd hd id,fun _ => ⟨?_,?_⟩,fun _ hg => absurd trivial hg⟩
  · intro k hk
    exact h.known k ((after k).symm.trans hk)
  · exact hn.imp (same.1.trans ·) (fun ha k => (congrFun same.2.1 k).trans (ha k))
  · intro k h0 hh
    exact (after k).trans (hu.hosted k h0 hh)

theorem AgreementInv.serveOld {slot : ℕ} {event : SessionEvent} (h : s.AgreementInv table)
    (hg : s.old.GaveUp) (hs : s.serveOld slot event = some t) : AgreementInv table t := by
  unfold Takeover.serveOld at hs
  split at hs
  · cases hs
  obtain ⟨r,_,rfl⟩ := Option.map_eq_some_iff.mp hs
  obtain ⟨hn,hh⟩ := h.gaveUp hg
  refine ⟨?_,fun hd => absurd hd id,fun _ => ⟨hn,?_⟩,fun _ hg => absurd trivial hg⟩
  · intro k hk
    exact h.known k ((setIo_isSome s slot k r.1).symm.trans hk)
  · intro k h0 ht
    exact (setIo_isSome s slot k r.1).trans (hh k h0 ht)

end OldSteps

section NewSteps
variable {rest : List ToNew}
variable {n left : ℕ}

/-- A step that the old core does not notice. -/
theorem AgreementInv.unseen (h : s.AgreementInv table) (ho : t.old = s.old) (hs : t.sessions = s.sessions)
    (hp : t.paused = s.paused) (he : t.exports = s.exports)
    (stage : s.old.Deciding → s.Stage → t.Stage)
    (adopted : s.old.Deciding → ∀ slot, (t.adopted slot).isSome → slot ∈ s.exports.map Prod.fst)
    (gaveUp : s.old.GaveUp → HostsNothing s → HostsNothing t)
    (left : s.new = .serving → ¬s.old.Deciding → ¬s.old.GaveUp →
      t.new = .serving ∧ ∀ slot, (s.adopted slot).isSome → (t.adopted slot).isSome) :
    AgreementInv table t := by
  refine ⟨by rw [hs]; exact h.known,fun hd => ?_,fun hg => ?_,fun hd hg => ?_⟩
  · rw [ho] at hd
    have hu := h.undecided hd
    have hx : t.toExport = s.toExport := by simp only [toExport, ho, hp]
    exact ⟨by rw [hs]; exact hu.hosted,by rw [he, hx]; exact hu.covered,by rw [he, hs]; exact hu.paused,
      by rw [he]; exact adopted hd,stage hd hu.stage⟩
  · rw [ho] at hg
    rw [hs]
    exact ⟨gaveUp hg (h.gaveUp hg).1,(h.gaveUp hg).2⟩
  · rw [ho] at hd hg
    obtain ⟨hn,hh⟩ := h.left hd hg
    obtain ⟨hn',ha⟩ := left hn hd hg
    rw [hs]
    exact ⟨hn',fun slot h0 ht => ⟨(hh slot h0 ht).1,ha slot (hh slot h0 ht).2⟩⟩

theorem AgreementInv.newPhase (h : s.AgreementInv table) {toNew : List ToNew} {toOld : List ToOld}
    {phase : NewPhase} (hs : s.new ≠ .serving) (hx : s.new ≠ .exited)
    (stage : s.old.Deciding → s.Stage → Stage { s with new := phase, toNew := toNew, toOld := toOld }) :
    AgreementInv table { s with new := phase, toNew := toNew, toOld := toOld } := by
  refine h.unseen rfl rfl rfl rfl stage (fun hd => (h.undecided hd).adopted) (fun _ hn => ?_)
    (fun hn => absurd hn hs)
  exact .inr (hn.resolve_left hx)

theorem Stage.header (h : s.Stage) (hn : s.new = .waiting) (hw : s.toNew = .header n :: rest) :
    Stage { s with new := .adopting n 0, toNew := rest } := by
  cases h with
  | unsent _ _ _ hw' => cases hw.symm.trans hw'
  | sent todo mid _ ha hr ho he hw' =>
    obtain ⟨hh,rfl⟩ := List.cons.inj (hw.symm.trans hw')
    cases hh
    exact .adopting todo [] mid _ 0 rfl (by simp) hr ho he rfl (by simp [he])
  | adopting _ _ _ _ _ hn' | recorded _ hn' | serving hn' => cases hn.symm.trans hn'
  | failed hn' =>
    rw [hn] at hn'
    rcases hn' with hn' | hn' <;> cases hn'

/-- A new core that is adopting has the first of the announced Sessions; the
others are on their way or not sent yet. -/
theorem Stage.of_adopting (h : s.Stage) (hn : s.new = .adopting left n) :
    ∃ todo done mid, (∀ e ∈ done, (s.adopted e.1).isSome) ∧ s.toOld = [] ∧ s.old = .sending todo ∧
      s.exports = done ++ (mid ++ todo) ∧ s.toNew = mid.map sessionMessage ∧
      left = mid.length + todo.length := by
  cases h with
  | adopting todo done mid l m hn' ha hr ho he hw hl =>
    cases hn.symm.trans hn'
    exact ⟨todo,done,mid,ha,hr,ho,he,hw,hl⟩
  | unsent hn' | sent _ _ hn' | recorded _ hn' | serving hn' => cases hn.symm.trans hn'
  | failed hn' =>
    rw [hn] at hn'
    rcases hn' with hn' | hn' <;> cases hn'

theorem Stage.adopt_exported {slot : ℕ} {e : HandoffExport}
    (h : s.Stage) (hn : s.new = .adopting left n) (hw : s.toNew = .session slot e :: rest) :
    slot ∈ s.exports.map Prod.fst := by
  obtain ⟨todo,done,mid,_,_,_,he,hw',_⟩ := h.of_adopting hn
  have hm : ToNew.session slot e ∈ mid.map sessionMessage := by simp [← hw', hw]
  obtain ⟨x,hx,hxe⟩ := mem_map.mp hm
  cases hxe
  rw [he]
  exact mem_map_of_mem (by simp [hx])

/-- One more Session was adopted. -/
theorem Stage.adopt {slot : ℕ} {e : HandoffExport} {io : SessionIo}
    (h : s.Stage) (hn : s.new = .adopting (left + 1) n) (hw : s.toNew = .session slot e :: rest) :
    Stage { s with new := .adopting left (n + 1), toNew := rest,
                   adopted := Function.update s.adopted slot (some io) } := by
  obtain ⟨todo,done,mid,ha,hr,ho,he,hw',hl⟩ := h.of_adopting hn
  cases mid with
  | nil => cases hw.symm.trans hw'
  | cons x mid =>
    obtain ⟨hh,rfl⟩ := List.cons.inj (hw.symm.trans hw')
    cases hh
    refine .adopting todo (done ++ [x]) mid left (n + 1) rfl (fun y hy => ?_) hr ho (by simp [he]) rfl ?_
    · dsimp only
      rw [Function.update_apply]
      split
      · rfl
      · next hne =>
        rcases mem_append.mp hy with hy | hy
        · exact ha y hy
        · exact absurd (by rw [mem_singleton.mp hy]) hne
    · simp only [length_cons] at hl
      omega

theorem Stage.record {n : ℕ} (h : s.Stage) (hn : s.new = .adopting 0 n) :
    Stage { s with new := .recorded n } := by
  obtain ⟨todo,done,mid,ha,hr,ho,he,_,hl⟩ := h.of_adopting hn
  obtain rfl : mid = [] := length_eq_zero_iff.mp (by omega)
  obtain rfl : todo = [] := length_eq_zero_iff.mp (by omega)
  refine .recorded n rfl ?_ hr ho
  simpa [he] using ha

theorem Stage.commit {n : ℕ} (h : s.Stage) (hn : s.new = .recorded n) :
    Stage { s with new := .serving, toOld := s.toOld ++ [.commit n] } := by
  cases h with
  | recorded m hn' ha hr ho => exact .serving rfl ha ho
  | unsent hn' | sent _ _ hn' | adopting _ _ _ _ _ hn' | serving hn' => cases hn.symm.trans hn'
  | failed hn' =>
    rw [hn] at hn'
    rcases hn' with hn' | hn' <;> cases hn'

theorem Stage.silent (h : s.Stage) (hs : s.new ≠ .serving) : ∀ n, .commit n ∉ s.toOld := by
  cases h with
  | unsent _ _ hr | sent _ _ _ _ hr | adopting _ _ _ _ _ _ _ hr | recorded _ _ _ hr => simp [hr]
  | serving hn => exact absurd hn hs
  | failed _ hr => exact hr

theorem AgreementInv.outside {timer : Timer} {terminals : ℕ → Terminal} (h : s.AgreementInv table) :
    AgreementInv table { s with timer := timer, terminals := terminals } := by
  refine h.unseen rfl rfl rfl rfl (fun _ hst => ?_) (fun hd => (h.undecided hd).adopted) (fun _ hn => hn)
    (fun hn _ _ => ⟨hn,fun _ ha => ha⟩)
  cases hst with
  | unsent hn ha hr hw ho => exact .unsent hn ha hr hw ho
  | sent todo mid hn ha hr ho he hw => exact .sent todo mid hn ha hr ho he hw
  | adopting todo done mid left n hn ha hr ho he hw hl => exact .adopting todo done mid left n hn ha hr ho he hw hl
  | recorded n hn ha hr ho => exact .recorded n hn ha hr ho
  | serving hn ha ho => exact .serving hn ha ho
  | failed hn hr => exact .failed hn hr

theorem AgreementInv.serveNew {slot : ℕ} {event : SessionEvent} (h : s.AgreementInv table)
    (hx : s.new ≠ .exited) (hs : s.serveNew slot event = some t) : AgreementInv table t := by
  unfold Takeover.serveNew at hs
  split at hs
  · cases hs
  next io hio =>
  obtain ⟨r,_,rfl⟩ := Option.map_eq_some_iff.mp hs
  have same : ∀ k, ((Function.update s.adopted slot (some r.1)) k).isSome = (s.adopted k).isSome := by
    intro k
    rw [Function.update_apply]
    split
    · next he => rw [he, hio]; rfl
    · rfl
  refine h.unseen rfl rfl rfl rfl (fun _ hst => ?_) (fun hd k hk => ?_) (fun _ hn => ?_) (fun hn _ _ => ⟨hn,?_⟩)
  · cases hst with
    | unsent hn ha hr hw ho | sent todo mid hn ha hr ho he hw => exact absurd (hio.symm.trans (ha slot)) (by simp)
    | adopting todo done mid left n hn ha hr ho he hw hl =>
      exact .adopting todo done mid left n hn (fun e hm => (same e.1).trans (ha e hm)) hr ho he hw hl
    | recorded n hn ha hr ho => exact .recorded n hn (fun e hm => (same e.1).trans (ha e hm)) hr ho
    | serving hn ha ho => exact .serving hn (fun e hm => (same e.1).trans (ha e hm)) ho
    | failed hn hr => exact .failed hn hr
  · exact (h.undecided hd).adopted k ((same k).symm.trans hk)
  · exact absurd (hio.symm.trans (hn.resolve_left hx slot)) (by simp)
  · exact fun k hk => (same k).trans hk

end NewSteps
end Takeover
end Unpeel.Core
