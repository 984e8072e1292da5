import Unpeel.Attach.StdinPump

/-! # Muting the answers to a replay

A replay asks the terminal what was answered long ago. No byte of such an answer should get to
the Session, every key should, and muting should come to an end.
-/
namespace Unpeel.Attach
open Transducers List

/-- A byte of a string, which ends at an Escape, and where it is an operating system command at a
bell as well. -/
def InString (osc : Bool) (b : UInt8) : Prop := b ≠ 0x1b ∧ (osc = true → b ≠ 0x07)

inductive Reply where
  | csi (parameters : Bytes) (final : UInt8) (hparameters : ∀ b ∈ parameters, 0x20 ≤ b ∧ b ≤ 0x3f)
      (hfinal : 0x40 ≤ final ∧ final ≤ 0x7e)
  | ss3 (final : UInt8) (hfinal : 0x20 ≤ final ∧ final ≤ 0x7e)
  | oscBell (body : Bytes) (hbody : ∀ b ∈ body, InString true b)
  | osc (body : Bytes) (hbody : ∀ b ∈ body, InString true b)
  | dcs (body : Bytes) (hbody : ∀ b ∈ body, InString false b)
  -- introduced by `X`, `^` or `_`
  | string (introducer : UInt8) (body : Bytes) (hintroducer : introducer = 0x58 ∨ introducer = 0x5e ∨ introducer = 0x5f)
      (hbody : ∀ b ∈ body, InString false b)

namespace Reply

def tail : Reply → Bytes
  | csi parameters final _ _ => 0x5b :: parameters ++ [final]
  | ss3 final _ => [0x4f,final]
  | oscBell body _ => 0x5d :: body ++ [0x07]
  | osc body _ => 0x5d :: body ++ [0x1b,0x5c]
  | dcs body _ => 0x50 :: body ++ [0x1b,0x5c]
  | string introducer body _ _ => introducer :: body ++ [0x1b,0x5c]

end Reply

inductive Item where
  | plain (b : UInt8) (h : b ≠ 0x1b)
  -- an Escape and a byte that begins nothing longer
  | pair (b : UInt8) (h : b ∉ [0x5b,0x5d,0x50,0x4f,0x58,0x5e,0x5f,0x1b])
  | reply (r : Reply)
  -- a reply that comes right after an Escape
  | escapedReply (r : Reply)

namespace Item

def bytes : Item → Bytes
  | plain b _ => [b]
  | pair b _ => [0x1b,b]
  | reply r => 0x1b :: r.tail
  | escapedReply r => 0x1b :: 0x1b :: r.tail

def kept : Item → Bytes
  | plain b _ => [b]
  | _ => []

def leaked : Reply → Bytes
  | .csi parameters final _ _ => 0x5b :: parameters ++ [final]
  | .ss3 final _ => [0x4f,final]
  | .oscBell body _ => 0x5d :: body ++ [0x07]
  | .osc body _ => 0x5d :: body
  | .dcs body _ => 0x50 :: body
  | .string introducer body _ _ => introducer :: body

def leak : Item → Bytes
  | reply (.string _ body _ _) => body
  | escapedReply r => leaked r
  | _ => []

end Item

namespace MuteFilter
variable {body : Bytes}

theorem filter_append (s : MuteState) (a b : Bytes) :
    filter s (a ++ b) = ((filter (filter s a).1 b).1,(filter s a).2 ++ (filter (filter s a).1 b).2) := feed_append s a b

theorem filter_plain (h : ∀ b ∈ body, b ≠ 0x1b) : filter .ground body = (.ground,body) := by
  unfold filter
  induction body with
  | nil => rfl
  | cons b body ih =>
    obtain ⟨hb,hbody⟩ := forall_mem_cons.mp h
    rw [feed, filterByte, if_neg hb, ih hbody]
    rfl

theorem filter_csi {parameters : Bytes} (h : ∀ b ∈ parameters, ¬(0x40 ≤ b ∧ b ≤ 0x7e)) : filter .csi parameters = (.csi,[]) := by
  refine feed_idle fun b hb => ?_
  rw [filterByte, if_neg (h b hb)]

theorem filter_osc (h : ∀ b ∈ body, InString true b) : filter .osc body = (.osc,[]) := by
  refine feed_idle fun b hb => ?_
  rw [filterByte, if_neg ((h b hb).2 rfl), if_neg (h b hb).1]

theorem filter_dcs (h : ∀ b ∈ body, InString false b) : filter .dcs body = (.dcs,[]) := by
  refine feed_idle fun b hb => ?_
  rw [filterByte, if_neg (h b hb).1]

theorem not_final_of_parameter {b : UInt8} (h : 0x20 ≤ b ∧ b ≤ 0x3f) : ¬(0x40 ≤ b ∧ b ≤ 0x7e) := fun hfinal =>
  absurd (UInt8.le_trans hfinal.1 h.2) (by decide)

/-- An answer is swallowed after its Escape, unless its string is not known. -/
theorem filter_tail (r : Reply) : filter .escape r.tail = (.ground,Item.leak (.reply r)) := by
  cases r with
  | csi parameters final hparameters hfinal =>
    have hbody := filter_csi fun b hb => not_final_of_parameter (hparameters b hb)
    show filter .csi (parameters ++ [final]) = _
    rw [filter_append, hbody]
    show ((filterByte .csi final).1,_ ++ ((filterByte .csi final).2 ++ _)) = _
    rw [filterByte, if_pos hfinal]
    rfl
  | ss3 final hfinal => rfl
  | oscBell body hbody =>
    show filter .osc (body ++ [0x07]) = _
    rw [filter_append, filter_osc hbody]
    rfl
  | osc body hbody =>
    show filter .osc (body ++ [0x1b,0x5c]) = _
    rw [filter_append, filter_osc hbody]
    rfl
  | dcs body hbody =>
    show filter .dcs (body ++ [0x1b,0x5c]) = _
    rw [filter_append, filter_dcs hbody]
    rfl
  | string introducer body hintroducer hbody =>
    have hopen : filterByte .escape introducer = (.ground,[]) := by
      rcases hintroducer with rfl | rfl | rfl <;> rfl
    show feed filterByte .escape (introducer :: (body ++ [0x1b,0x5c])) = _
    rw [feed, hopen]
    show ((filter .ground (body ++ [0x1b,0x5c])).1,(filter .ground (body ++ [0x1b,0x5c])).2) = _
    rw [filter_append, filter_plain fun b hb => (hbody b hb).1]
    show (MuteState.ground,body ++ []) = _
    rw [append_nil]
    rfl

/-- Without its Escape an answer is typed text. -/
theorem filter_leaked (r : Reply) : filter .ground r.tail = (.ground,Item.leaked r) := by
  have hstring : ∀ (first : UInt8) (body : Bytes), first ≠ 0x1b → (∀ b ∈ body, b ≠ 0x1b) →
      filter .ground ((first :: body) ++ [0x1b,0x5c]) = (.ground,first :: body) := by
    intro first body hfirst hbody
    rw [filter_append, filter_plain (forall_mem_cons.mpr ⟨hfirst,hbody⟩)]
    show (MuteState.ground,(first :: body) ++ []) = _
    rw [append_nil]
  have hne : ∀ b : UInt8, 0x20 ≤ b → b ≠ 0x1b := by
    rintro b hb rfl
    exact absurd hb (by decide)
  cases r with
  | csi parameters final hparameters hfinal =>
    refine filter_plain fun b hb => ?_
    rcases mem_append.mp hb with hb | hb
    · rcases mem_cons.mp hb with rfl | hb
      · decide
      · exact hne b (hparameters b hb).1
    · rw [mem_singleton.mp hb]
      exact hne final (UInt8.le_trans (by decide) hfinal.1)
  | ss3 final hfinal =>
    refine filter_plain fun b hb => ?_
    rcases mem_cons.mp hb with rfl | hb
    · decide
    · rw [mem_singleton.mp hb]
      exact hne final hfinal.1
  | oscBell body hbody =>
    refine filter_plain fun b hb => ?_
    rcases mem_append.mp hb with hb | hb
    · rcases mem_cons.mp hb with rfl | hb
      · decide
      · exact (hbody b hb).1
    · rw [mem_singleton.mp hb]
      decide
  | osc body hbody => exact hstring 0x5d body (by decide) fun b hb => (hbody b hb).1
  | dcs body hbody => exact hstring 0x50 body (by decide) fun b hb => (hbody b hb).1
  | string introducer body hintroducer hbody =>
    have hfirst : introducer ≠ 0x1b := by
      rcases hintroducer with rfl | rfl | rfl <;> decide
    exact hstring introducer body hfirst fun b hb => (hbody b hb).1

theorem filter_item (item : Item) : filter .ground item.bytes = (.ground,item.kept ++ item.leak) := by
  cases item with
  | plain b h => exact filter_plain fun x hx => by rwa [mem_singleton.mp hx]
  | pair b h =>
    simp only [mem_cons, not_mem_nil, or_false, not_or] at h
    show feed filterByte .escape [b] = _
    rw [feed, filterByte, if_neg h.1, if_neg h.2.1, if_neg h.2.2.1, if_neg h.2.2.2.1]
    rfl
  | reply r => exact filter_tail r
  | escapedReply r => exact filter_leaked r

theorem filter_items (items : List Item) :
    filter .ground (items.flatMap Item.bytes) = (.ground,items.flatMap fun item => item.kept ++ item.leak) := by
  induction items with
  | nil => rfl
  | cons item items ih => rw [flatMap_cons, filter_append, filter_item, ih, flatMap_cons]

end MuteFilter

/-! ### Inputs whose sequences are finished -/

inductive Content (osc : Bool) : Bytes → Prop where
  | nil : Content osc []
  | byte {body : Bytes} (h : Content osc body) {b : UInt8} (hb : InString osc b) : Content osc (body ++ [b])
  | escaped {body : Bytes} (h : Content osc body) {b : UInt8} (hb : b ≠ 0x5c) : Content osc (body ++ [0x1b,b])

inductive Finished : Bytes → Prop where
  | nil : Finished []
  | byte {before : Bytes} (h : Finished before) {b : UInt8} (hb : b ≠ 0x1b) : Finished (before ++ [b])
  | pair {before : Bytes} (h : Finished before) {b : UInt8} (hb : b ∉ [0x5b,0x5d,0x50,0x4f]) : Finished (before ++ [0x1b,b])
  | csi {before : Bytes} (h : Finished before) {parameters : Bytes} {final : UInt8}
      (hparameters : ∀ b ∈ parameters, ¬(0x40 ≤ b ∧ b ≤ 0x7e)) (hfinal : 0x40 ≤ final ∧ final ≤ 0x7e) :
      Finished (before ++ [0x1b,0x5b] ++ parameters ++ [final])
  | ss3 {before : Bytes} (h : Finished before) (b : UInt8) : Finished (before ++ [0x1b,0x4f,b])
  | oscBell {before : Bytes} (h : Finished before) {body : Bytes} (hbody : Content true body) :
      Finished (before ++ [0x1b,0x5d] ++ body ++ [0x07])
  | osc {before : Bytes} (h : Finished before) {body : Bytes} (hbody : Content true body) :
      Finished (before ++ [0x1b,0x5d] ++ body ++ [0x1b,0x5c])
  | dcs {before : Bytes} (h : Finished before) {body : Bytes} (hbody : Content false body) :
      Finished (before ++ [0x1b,0x50] ++ body ++ [0x1b,0x5c])

namespace MuteFilter

def Leads : MuteState → Bytes → Prop
  | .ground, bytes => Finished bytes
  | .escape, bytes => ∃ before, Finished before ∧ bytes = before ++ [0x1b]
  | .csi, bytes => ∃ before parameters, Finished before ∧ (∀ b ∈ parameters, ¬(0x40 ≤ b ∧ b ≤ 0x7e)) ∧
      bytes = before ++ [0x1b,0x5b] ++ parameters
  | .osc, bytes => ∃ before body, Finished before ∧ Content true body ∧ bytes = before ++ [0x1b,0x5d] ++ body
  | .oscEscape, bytes => ∃ before body, Finished before ∧ Content true body ∧ bytes = before ++ [0x1b,0x5d] ++ body ++ [0x1b]
  | .dcs, bytes => ∃ before body, Finished before ∧ Content false body ∧ bytes = before ++ [0x1b,0x50] ++ body
  | .dcsEscape, bytes => ∃ before body, Finished before ∧ Content false body ∧ bytes = before ++ [0x1b,0x50] ++ body ++ [0x1b]
  | .ss3, bytes => ∃ before, Finished before ∧ bytes = before ++ [0x1b,0x4f]

theorem Leads.step {s : MuteState} {bytes : Bytes} (h : Leads s bytes) (b : UInt8) : Leads (filterByte s b).1 (bytes ++ [b]) := by
  cases s with
  | ground =>
    simp only [filterByte]
    split_ifs with hesc
    · exact ⟨bytes,h,by rw [hesc]⟩
    · exact Finished.byte h hesc
  | escape =>
    obtain ⟨before,hbefore,rfl⟩ := h
    simp only [filterByte]
    split_ifs with hcsi hosc hdcs hss3
    · exact ⟨before,[],hbefore,fun _ hb => absurd hb not_mem_nil,by simp [hcsi]⟩
    · exact ⟨before,[],hbefore,.nil,by simp [hosc]⟩
    · exact ⟨before,[],hbefore,.nil,by simp [hdcs]⟩
    · exact ⟨before,hbefore,by simp [hss3]⟩
    · rw [append_assoc]
      exact Finished.pair hbefore (by simp [hcsi, hosc, hdcs, hss3])
  | csi =>
    obtain ⟨before,parameters,hbefore,hparameters,rfl⟩ := h
    simp only [filterByte]
    split_ifs with hfinal
    · exact Finished.csi hbefore hparameters hfinal
    · refine ⟨before,parameters ++ [b],hbefore,?_,by rw [append_assoc]⟩
      rw [forall_mem_append, forall_mem_singleton]
      exact ⟨hparameters,hfinal⟩
  | osc =>
    obtain ⟨before,body,hbefore,hbody,rfl⟩ := h
    simp only [filterByte]
    split_ifs with hbell hesc
    · rw [hbell]
      exact Finished.oscBell hbefore hbody
    · exact ⟨before,body,hbefore,hbody,by rw [hesc]⟩
    · exact ⟨before,body ++ [b],hbefore,hbody.byte ⟨hesc,fun _ => hbell⟩,by rw [append_assoc]⟩
  | oscEscape =>
    obtain ⟨before,body,hbefore,hbody,rfl⟩ := h
    simp only [filterByte]
    split_ifs with hst
    · rw [hst, append_assoc]
      exact Finished.osc hbefore hbody
    · exact ⟨before,body ++ [0x1b,b],hbefore,hbody.escaped hst,by simp⟩
  | dcs =>
    obtain ⟨before,body,hbefore,hbody,rfl⟩ := h
    simp only [filterByte]
    split_ifs with hesc
    · exact ⟨before,body,hbefore,hbody,by rw [hesc]⟩
    · exact ⟨before,body ++ [b],hbefore,hbody.byte ⟨hesc,fun h => absurd h Bool.false_ne_true⟩,by rw [append_assoc]⟩
  | dcsEscape =>
    obtain ⟨before,body,hbefore,hbody,rfl⟩ := h
    simp only [filterByte]
    split_ifs with hst
    · rw [hst, append_assoc]
      exact Finished.dcs hbefore hbody
    · exact ⟨before,body ++ [0x1b,b],hbefore,hbody.escaped hst,by simp⟩
  | ss3 =>
    obtain ⟨before,hbefore,rfl⟩ := h
    rw [append_assoc]
    exact Finished.ss3 hbefore b

theorem leads_filter (bytes : Bytes) : Leads (filter .ground bytes).1 bytes := by
  induction bytes using List.reverseRecOn with
  | nil => exact Finished.nil
  | append_singleton bytes b ih =>
    rw [filter_append]
    exact ih.step b

theorem filter_content_osc {body : Bytes} (h : Content true body) : (filter .osc body).1 = .osc := by
  induction h with
  | nil => rfl
  | byte _ hb ih =>
    rw [filter_append, ih, filter_osc fun x hx => by rwa [mem_singleton.mp hx]]
  | @escaped body _ b hb ih =>
    rw [filter_append, ih]
    show (filterByte .oscEscape b).1 = _
    rw [filterByte, if_neg hb]

theorem filter_content_dcs {body : Bytes} (h : Content false body) : (filter .dcs body).1 = .dcs := by
  induction h with
  | nil => rfl
  | byte _ hb ih =>
    rw [filter_append, ih, filter_dcs fun x hx => by rwa [mem_singleton.mp hx]]
  | @escaped body _ b hb ih =>
    rw [filter_append, ih]
    show (filterByte .dcsEscape b).1 = _
    rw [filterByte, if_neg hb]

theorem filter_finished {bytes : Bytes} (h : Finished bytes) : (filter .ground bytes).1 = .ground := by
  induction h with
  | nil => rfl
  | @byte before _ b hb ih =>
    rw [filter_append, ih, filter_plain fun x hx => by rwa [mem_singleton.mp hx]]
  | @pair before _ b hb ih =>
    simp only [mem_cons, not_mem_nil, or_false, not_or] at hb
    rw [filter_append, ih]
    show (filterByte .escape b).1 = _
    rw [filterByte, if_neg hb.1, if_neg hb.2.1, if_neg hb.2.2.1, if_neg hb.2.2.2]
  | @csi before _ parameters final hparameters hfinal ih =>
    rw [filter_append, filter_append, filter_append, ih]
    show (filter (filter .csi parameters).1 [final]).1 = _
    rw [filter_csi hparameters]
    show (filterByte .csi final).1 = _
    rw [filterByte, if_pos hfinal]
  | ss3 _ b ih =>
    rw [filter_append, ih]
    rfl
  | @oscBell before _ body hbody ih =>
    rw [filter_append, filter_append, filter_append, ih]
    show (filter (filter .osc body).1 [0x07]).1 = _
    rw [filter_content_osc hbody]
    rfl
  | @osc before _ body hbody ih =>
    rw [filter_append, filter_append, filter_append, ih]
    show (filter (filter .osc body).1 [0x1b,0x5c]).1 = _
    rw [filter_content_osc hbody]
    rfl
  | @dcs before _ body hbody ih =>
    rw [filter_append, filter_append, filter_append, ih]
    show (filter (filter .dcs body).1 [0x1b,0x5c]).1 = _
    rw [filter_content_dcs hbody]
    rfl

/-- The filter is in the middle of no sequence exactly after inputs whose sequences are
finished. -/
theorem isGround_iff (bytes : Bytes) : isGround (filter .ground bytes).1 = true ↔ Finished bytes := by
  unfold isGround
  rw [decide_eq_true_iff]
  refine ⟨fun h => ?_,filter_finished⟩
  have hleads := leads_filter bytes
  rwa [h] at hleads

end MuteFilter

/-! ### Answers that get through -/

/-- A string with text in it that is no command or device control string, and any answer right
after an Escape. -/
def Item.Misread : Item → Prop
  | reply (.string _ body _ _) => body ≠ []
  | escapedReply _ => True
  | _ => False

theorem Item.leak_eq_nil_iff (item : Item) : item.leak = [] ↔ ¬item.Misread := by
  cases item with
  | plain b h | pair b h => simp [leak, Misread]
  | reply r => cases r <;> simp [leak, Misread]
  | escapedReply r => cases r <;> simp [leak, leaked, Misread]

/-- However the input is read: from a place where the filter is in no sequence, no byte of the
answers is forwarded and every other byte is. -/
def Mutes (stream : Bytes) : Prop := ∀ (reads : List Bytes) (before : Bytes) (items : List Item),
  reads.flatten = before ++ items.flatMap Item.bytes → reads.flatten <+: stream →
    MuteFilter.isGround (MuteFilter.filter .ground before).1 = true →
      (feedChunks MuteFilter.filter .ground reads).2 = (MuteFilter.filter .ground before).2 ++ items.flatMap Item.kept

theorem flatMap_kept {items : List Item} (h : ∀ item ∈ items, item.leak = []) :
    (items.flatMap fun item => item.kept ++ item.leak) = items.flatMap Item.kept := by
  refine flatMap_congr fun item hitem => ?_
  rw [h item hitem, append_nil]

theorem mutes_iff (stream : Bytes) :
    Mutes stream ↔ ∀ before (item : Item) after, stream = before ++ item.bytes ++ after → Finished before → ¬item.Misread := by
  constructor
  · intro h before item after hstream hbefore
    have hground := (MuteFilter.isGround_iff before).mpr hbefore
    have hall := h [before ++ item.bytes] before [item] (by simp) (by simp [hstream]) hground
    have hfilter : (feedChunks MuteFilter.filter .ground [before ++ item.bytes]).2 = (MuteFilter.filter .ground (before ++ item.bytes)).2 :=
      append_nil _
    rw [hfilter, MuteFilter.filter_append, MuteFilter.filter_finished hbefore, MuteFilter.filter_item, flatMap_singleton] at hall
    rw [← Item.leak_eq_nil_iff]
    exact List.append_right_eq_self.mp (append_cancel_left hall)
  · intro h reads before items hreads hstream hground
    obtain ⟨after,hstream⟩ := hstream
    have hleak : ∀ item ∈ items, item.leak = [] := by
      intro item hitem
      obtain ⟨front,back,rfl⟩ := append_of_mem hitem
      have hfront : Finished (before ++ front.flatMap Item.bytes) := by
        rw [← MuteFilter.isGround_iff, MuteFilter.filter_append, MuteFilter.filter_finished ((MuteFilter.isGround_iff before).mp hground),
          MuteFilter.filter_items]
        rfl
      rw [Item.leak_eq_nil_iff]
      refine h _ item (back.flatMap Item.bytes ++ after) ?_ hfront
      rw [← hstream, hreads, flatMap_append, flatMap_cons]
      simp only [append_assoc]
    rw [feedChunks_eq (show ∀ s chunk, MuteFilter.filter s chunk = feed MuteFilter.filterByte s chunk from fun _ _ => rfl), hreads]
    show (MuteFilter.filter .ground (before ++ items.flatMap Item.bytes)).2 = _
    rw [MuteFilter.filter_append, MuteFilter.filter_finished ((MuteFilter.isGround_iff before).mp hground), MuteFilter.filter_items,
      flatMap_kept hleak]

/-! ### The end of the mute window -/

namespace StdinPump
variable {s : MuteState}

/-- Reads, each with whether it is the timeout of a key, before or after the end of the mute
window. -/
def muteReads (muteFilter : MuteState) (muting : Bool) : List (Bool × Bytes) → MuteState × Bytes
  | [] => (muteFilter,[])
  | read :: reads =>
    let muted := mute muteFilter muting read.1 read.2
    ((muteReads muted.1 muting reads).1,muted.2 ++ (muteReads muted.1 muting reads).2)

def swallowed (muteFilter : MuteState) (reads : List (Bool × Bytes)) : ℕ :=
  (reads.flatMap (·.2)).length - (muteReads muteFilter false reads).2.length

def filtered (reads : List (Bool × Bytes)) : Bytes := (reads.filter fun read => !(read.1 && read.2 = [0x1b])).flatMap (·.2)

theorem muteReads_ground (reads : List (Bool × Bytes)) : muteReads .ground false reads = (.ground,reads.flatMap (·.2)) := by
  induction reads with
  | nil => rfl
  | cons read reads ih => rw [muteReads, mute_ground, ih, flatMap_cons]

theorem muteReads_append (s : MuteState) (muting : Bool) (a b : List (Bool × Bytes)) :
    muteReads s muting (a ++ b) =
      ((muteReads (muteReads s muting a).1 muting b).1,(muteReads s muting a).2 ++ (muteReads (muteReads s muting a).1 muting b).2) := by
  induction a generalizing s with
  | nil => rfl
  | cons read a ih =>
    rw [cons_append, muteReads, ih]
    exact Prod.ext rfl (append_assoc _ _ _).symm

theorem filtered_cons (read : Bool × Bytes) (reads : List (Bool × Bytes)) :
    filtered (read :: reads) = (if (read.1 && decide (read.2 = [0x1b])) = true then [] else read.2) ++ filtered reads := by
  unfold filtered
  cases hkey : (read.1 && decide (read.2 = [0x1b]))
  · rw [filter_cons_of_pos (by rw [hkey]; rfl), flatMap_cons]
    rfl
  · rw [filter_cons_of_neg (by rw [hkey]; exact Bool.false_ne_true)]
    rfl

theorem muteReads_muting (s : MuteState) (reads : List (Bool × Bytes)) :
    (muteReads s true reads).1 = (MuteFilter.filter s (filtered reads)).1 := by
  induction reads generalizing s with
  | nil => rfl
  | cons read reads ih =>
    rw [muteReads, ih, filtered_cons, MuteFilter.filter_append]
    unfold mute
    split_ifs with hkey htrue
    · rfl
    · rfl
    · exact absurd rfl htrue

/-- After it the filter is used until it is in no sequence. -/
theorem muteReads_late (s : MuteState) (reads : List (Bool × Bytes)) :
    (muteReads s false reads).1 = .ground ∨ (muteReads s false reads).1 = (MuteFilter.filter s (filtered reads)).1 := by
  induction reads generalizing s with
  | nil => exact .inr rfl
  | cons read reads ih =>
    by_cases hs : s = .ground
    · rw [hs, muteReads_ground]
      exact .inl rfl
    · have hfiltering : (!MuteFilter.isGround s) = true := by simp [MuteFilter.isGround, hs]
      have hmute : (mute s false read.1 read.2).1 =
          (MuteFilter.filter s (if (read.1 && decide (read.2 = [0x1b])) = true then [] else read.2)).1 := by
        unfold mute
        rw [Bool.false_or, if_pos hfiltering]
        split_ifs <;> rfl
      rw [muteReads, filtered_cons, MuteFilter.filter_append, ← hmute]
      exact ih _

theorem swallowed_ground (reads : List (Bool × Bytes)) : swallowed .ground reads = 0 := by
  rw [swallowed, muteReads_ground, Nat.sub_self]

def opening : MuteState → Bytes
  | .escape => [0x5b]
  | .ss3 => [0x50,0x1b,0x5b]
  | _ => [0x30]

def InDigits (s : MuteState) : Prop := s = .csi ∨ s = .osc ∨ s = .dcs

theorem filter_opening (h : s ≠ .ground) :
    InDigits (MuteFilter.filter s (opening s)).1 ∧ (MuteFilter.filter s (opening s)).2 = [] := by
  cases s with
  | ground => exact absurd rfl h
  | escape | csi | ss3 => exact ⟨.inl rfl,rfl⟩
  | osc | oscEscape => exact ⟨.inr (.inl rfl),rfl⟩
  | dcs | dcsEscape => exact ⟨.inr (.inr rfl),rfl⟩

theorem mute_open (h : s ≠ .ground) (chunk : Bytes) : mute s false false chunk = MuteFilter.filter s chunk := by
  have hfiltering : (!MuteFilter.isGround s) = true := by simp [MuteFilter.isGround, h]
  unfold mute
  rw [Bool.false_or, if_pos hfiltering]
  rfl

theorem muteReads_digits (h : InDigits s) (n : ℕ) : (muteReads s false (List.replicate n (false,[0x30]))).2 = [] := by
  induction n with
  | zero => rfl
  | succ n ih =>
    have hne : s ≠ .ground := by
      rcases h with rfl | rfl | rfl <;> decide
    have hdigit : MuteFilter.filter s [0x30] = (s,[]) := by
      rcases h with rfl | rfl | rfl <;> rfl
    rw [replicate_succ, muteReads, mute_open hne, hdigit]
    exact ih

theorem swallowed_open (h : s ≠ .ground) (bound : ℕ) : ∃ after, bound < swallowed s after := by
  obtain ⟨hdigits,hout⟩ := filter_opening h
  refine ⟨(false,opening s) :: List.replicate (bound + 1) (false,[0x30]),?_⟩
  have hnone : (muteReads s false ((false,opening s) :: List.replicate (bound + 1) (false,[0x30]))).2 = [] := by
    rw [muteReads, mute_open h, hout]
    exact muteReads_digits hdigits (bound + 1)
  have hlength : ((List.replicate (bound + 1) ((false,[0x30]) : Bool × Bytes)).flatMap (·.2)).length = bound + 1 := by
    induction bound + 1 with
    | zero => rfl
    | succ n ih => rw [replicate_succ, flatMap_cons, length_append, ih, length_singleton, Nat.add_comm]
  rw [swallowed, hnone, flatMap_cons, length_append, hlength, length_nil]
  omega

end StdinPump

/-- No byte of an answer gets through and every other byte does exactly if no answer is misread
where the input before it is finished. How much is swallowed after the mute window is bounded
exactly if nothing is open at its end; and it is not more than what comes until all is finished. -/
theorem replay_muting_iff (stream : Bytes) (before : List (Bool × Bytes)) :
    (Mutes stream ↔ ∀ front (item : Item) back, stream = front ++ item.bytes ++ back → Finished front → ¬item.Misread) ∧
      ((∃ bound, ∀ after, StdinPump.swallowed (StdinPump.muteReads .ground true before).1 after ≤ bound) ↔
        Finished (StdinPump.filtered before)) ∧
      ∀ late after, Finished (StdinPump.filtered before ++ StdinPump.filtered late) →
        StdinPump.swallowed (StdinPump.muteReads .ground true before).1 (late ++ after) ≤ (late.flatMap (·.2)).length := by
  have hstate := StdinPump.muteReads_muting .ground before
  refine ⟨mutes_iff stream,?_,fun late after hfinished => ?_⟩
  · rw [hstate]
    constructor
    · rintro ⟨bound,hbound⟩
      rw [← MuteFilter.isGround_iff, MuteFilter.isGround, decide_eq_true_iff]
      by_contra hopen
      obtain ⟨after,hafter⟩ := StdinPump.swallowed_open hopen bound
      exact absurd (hbound after) (Nat.not_le_of_lt hafter)
    · intro hfinished
      refine ⟨0,fun after => ?_⟩
      rw [MuteFilter.filter_finished hfinished, StdinPump.swallowed_ground]
  · have hground : (StdinPump.muteReads (StdinPump.muteReads .ground true before).1 false late).1 = .ground := by
      rcases StdinPump.muteReads_late (StdinPump.muteReads .ground true before).1 late with h | h
      · exact h
      · have hfilter := MuteFilter.filter_finished hfinished
        rw [MuteFilter.filter_append] at hfilter
        rwa [h, hstate]
    rw [StdinPump.swallowed, StdinPump.muteReads_append, hground, StdinPump.muteReads_ground, flatMap_append, length_append,
      length_append]
    dsimp only
    omega

/-- The text of an application program command gets through, and after Alt and a bracket there is
no bound. -/
theorem program_command_gets_through :
    ¬Mutes [0x1b,0x5f,0x47,0x4f,0x4b,0x1b,0x5c] ∧
      ¬∃ bound, ∀ after, StdinPump.swallowed (StdinPump.muteReads .ground true [(false,[0x1b,0x5d])]).1 after ≤ bound := by
  refine ⟨fun h => ?_,fun ⟨bound,hbound⟩ => ?_⟩
  · exact (mutes_iff _).mp h [] (.reply (.string 0x5f [0x47,0x4f,0x4b] (by decide) (by simp [InString]))) [] rfl .nil (cons_ne_nil _ _)
  · obtain ⟨after,hafter⟩ := StdinPump.swallowed_open (by decide : MuteState.osc ≠ .ground) bound
    exact absurd (hbound after) (Nat.not_le_of_lt hafter)

end Unpeel.Attach
