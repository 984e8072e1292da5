import Mathlib.Data.List.Basic

/-! # Splitters

A splitter reads symbols into a state. In some states some symbols end a piece, and the next piece
starts afresh. What is joined again from whole pieces is split as it was.
-/
namespace Unpeel.Splitters
open List

structure Splitter (σ α : Type) where
  start : σ
  step : σ → α → σ
  ends : σ → α → Bool

variable {σ τ α : Type}

namespace Splitter
variable {a : α}
variable {s : σ} {as : List α}

section
variable (L : Splitter σ α)

def run (s : σ) (as : List α) : σ := as.foldl L.step s

def Whole (s : σ) : List α → Prop
  | [] => True
  | a :: as => L.ends s a = false ∧ Whole (L.step s a) as

def Closed (a : α) (piece : List α) : Prop := L.Whole L.start piece ∧ L.ends (L.run L.start piece) a = true

def Grown (s : σ) (piece : List α) : Prop := s = L.run L.start piece ∧ L.Whole L.start piece

def splitFrom (s : σ) (piece : List α) : List α → List (List α × Option α)
  | [] => [(piece,none)]
  | a :: as => if L.ends s a then (piece,some a) :: splitFrom L.start [] as else splitFrom (L.step s a) (piece ++ [a]) as

def split (as : List α) : List (List α × Option α) := L.splitFrom L.start [] as

def pieces (as : List α) : List (List α) := ((L.split as).map Prod.fst).filter fun piece => !piece.isEmpty

structure Rejoins (a : α) (parts : List (List α)) : Prop where
  closed : parts.Pairwise fun piece _ => L.Closed a piece
  whole : ∀ piece ∈ parts, L.Whole L.start piece ∧ piece ≠ []

def Along (P : σ → α → Prop) (s : σ) : List α → Prop
  | [] => True
  | a :: as => P s a ∧ Along P (if L.ends s a then L.start else L.step s a) as

end

variable {L : Splitter σ α}

instance decidableAlong {P : σ → α → Prop} [∀ s a, Decidable (P s a)] : ∀ (s : σ) (as : List α), Decidable (L.Along P s as)
  | _, [] => isTrue trivial
  | s, a :: as =>
    have : Decidable (L.Along P (if L.ends s a then L.start else L.step s a) as) := decidableAlong _ as
    inferInstanceAs (Decidable (P s a ∧ L.Along P _ as))

theorem run_concat (s : σ) (as : List α) (a : α) : L.run s (as ++ [a]) = L.step (L.run s as) a := by
  simp [run]

theorem whole_concat : L.Whole s (as ++ [a]) ↔ L.Whole s as ∧ L.ends (L.run s as) a = false := by
  induction as generalizing s with
  | nil => simp [Whole, run]
  | cons b as ih =>
    rw [cons_append, Whole, ih, Whole, and_assoc]
    rfl

theorem run_append (s : σ) (as bs : List α) : L.run s (as ++ bs) = L.run (L.run s as) bs := by
  simp [run]

theorem whole_append {bs : List α} : L.Whole s (as ++ bs) ↔ L.Whole s as ∧ L.Whole (L.run s as) bs := by
  induction as generalizing s with
  | nil => simp [Whole, run]
  | cons a as ih =>
    rw [cons_append, Whole, ih, Whole, and_assoc]
    rfl

theorem Grown.nil : L.Grown L.start [] := ⟨rfl,trivial⟩

theorem Grown.concat {piece : List α} (h : L.Grown s piece) (hend : L.ends s a = false) :
    L.Grown (L.step s a) (piece ++ [a]) := by
  obtain ⟨rfl,hwhole⟩ := h
  exact ⟨(run_concat _ _ _).symm,whole_concat.mpr ⟨hwhole,hend⟩⟩

theorem splitFrom_whole (h : L.Whole s as) (piece : List α) : L.splitFrom s piece as = [(piece ++ as,none)] := by
  induction as generalizing s piece with
  | nil => rw [splitFrom, append_nil]
  | cons a as ih =>
    obtain ⟨ha,has⟩ := h
    rw [splitFrom, if_neg (by rw [ha]; exact Bool.false_ne_true), ih has, append_assoc]
    rfl

theorem splitFrom_closed (h : L.Whole s as) (hend : L.ends (L.run s as) a = true)
    (piece rest : List α) : L.splitFrom s piece (as ++ a :: rest) = (piece ++ as,some a) :: L.split rest := by
  induction as generalizing s piece with
  | nil =>
    rw [nil_append, splitFrom, if_pos (show L.ends s a = true from hend), append_nil]
    rfl
  | cons b as ih =>
    obtain ⟨hb,has⟩ := h
    rw [cons_append, splitFrom, if_neg (by rw [hb]; exact Bool.false_ne_true), ih has hend, append_assoc]
    rfl

theorem split_whole {piece : List α} (h : L.Whole L.start piece) : L.split piece = [(piece,none)] := splitFrom_whole h []

/-- Pieces that a symbol ends, joined by this symbol, and a last one. -/
theorem split_join {a : α} {last : List α} (hlast : L.Whole L.start last) : ∀ {pieces : List (List α)}, (∀ piece ∈ pieces, L.Closed a piece) →
    L.split ([a].intercalate (pieces ++ [last])) = pieces.map (fun piece => (piece,some a)) ++ [(last,none)]
  | [], _ => by
    rw [List.nil_append, List.intercalate_singleton]
    exact split_whole hlast
  | piece :: pieces, h => by
    obtain ⟨⟨hwhole,hend⟩,hrest⟩ := forall_mem_cons.mp h
    have hjoin : [a].intercalate (piece :: pieces ++ [last]) = piece ++ a :: [a].intercalate (pieces ++ [last]) := by
      rw [cons_append, intercalate_cons_of_ne_nil (by simp)]
      simp
    rw [hjoin, split, splitFrom_closed hwhole hend, split_join hlast hrest]
    rfl

/-- What holds of each piece as it grows holds of all pieces. -/
theorem forall_splitFrom {P : σ → α → Prop} {J : σ → List α → Prop} (hstart : J L.start [])
    (hstep : ∀ s piece a, J s piece → P s a → L.ends s a = false → J (L.step s a) (piece ++ [a])) {s : σ} {piece as : List α}
    (hpiece : J s piece) (h : L.Along P s as) :
    ∀ entry ∈ L.splitFrom s piece as, ∃ t, J t entry.1 ∧ ∀ a ∈ entry.2, P t a ∧ L.ends t a = true := by
  induction as generalizing s piece with
  | nil =>
    intro entry hentry
    rw [mem_singleton.mp hentry]
    exact ⟨s,hpiece,fun _ ha => (by cases ha)⟩
  | cons a as ih =>
    obtain ⟨ha,has⟩ := h
    rw [splitFrom]
    split_ifs with hend
    · rw [if_pos hend] at has
      refine forall_mem_cons.mpr ⟨⟨s,hpiece,fun b hb => ?_⟩,ih hstart has⟩
      cases hb
      exact ⟨ha,hend⟩
    · rw [if_neg hend] at has
      exact ih (hstep s piece a hpiece ha (by simpa using hend)) has

/-- All pieces but the last one are ended, and that one is not. -/
theorem exists_splitFrom (s : σ) (piece as : List α) : ∃ (closed : List (List α × α)) (last : List α),
    L.splitFrom s piece as = closed.map (fun entry => (entry.1,some entry.2)) ++ [(last,none)] := by
  induction as generalizing s piece with
  | nil => exact ⟨[],piece,rfl⟩
  | cons a as ih =>
    rw [splitFrom]
    split_ifs
    · obtain ⟨closed,last,h⟩ := ih L.start []
      exact ⟨(piece,a) :: closed,last,by rw [h]; rfl⟩
    · exact ih _ _

theorem along_true (s : σ) (as : List α) : L.Along (fun _ _ => True) s as := by
  induction as generalizing s with
  | nil => trivial
  | cons a as ih => exact ⟨trivial,ih _⟩

theorem Rejoins.sublist {a : α} {parts rest : List (List α)} (h : L.Rejoins a parts) (hrest : rest.Sublist parts) : L.Rejoins a rest :=
  ⟨h.closed.sublist hrest,fun piece hpiece => h.whole piece (hrest.subset hpiece)⟩

/-- Pieces can be joined by a symbol that ends whatever another one ends. -/
theorem rejoins_pieces (hends : ∀ s b, L.ends s b = true → L.ends s a = true) (as : List α) : L.Rejoins a (L.pieces as) := by
  have hstep : ∀ s piece b, L.Grown s piece → True → L.ends s b = false → L.Grown (L.step s b) (piece ++ [b]) :=
    fun s piece b hs _ hend => hs.concat hend
  have hentries := forall_splitFrom (P := fun _ _ => True) (J := L.Grown) Grown.nil hstep Grown.nil (along_true L.start as)
  obtain ⟨closed,last,hsplit⟩ := exists_splitFrom (L := L) L.start [] as
  have hclosed : ∀ piece ∈ closed.map Prod.fst, L.Closed a piece := by
    intro piece hpiece
    obtain ⟨⟨_,b⟩,hmem,rfl⟩ := mem_map.mp hpiece
    obtain ⟨t,⟨rfl,hwhole⟩,hend⟩ := hentries (_,some b) (by rw [hsplit]; exact mem_append_left _ (mem_map.mpr ⟨_,hmem,rfl⟩))
    exact ⟨hwhole,hends _ b (hend b rfl).2⟩
  constructor
  · rw [pieces, split, hsplit, map_append, map_map]
    refine List.Pairwise.filter _ (pairwise_append.mpr ⟨?_,pairwise_singleton _ _,fun piece hpiece _ _ => hclosed piece hpiece⟩)
    exact List.pairwise_iff_forall_sublist.mpr fun {piece _} hpair => hclosed piece (hpair.subset (by simp))
  · intro piece hpiece
    obtain ⟨hmem,hne⟩ := mem_filter.mp hpiece
    obtain ⟨entry,hentry,rfl⟩ := mem_map.mp hmem
    obtain ⟨t,⟨-,hwhole⟩,-⟩ := hentries entry hentry
    exact ⟨hwhole,by simpa using hne⟩

/-- What is joined from pieces is split into the same pieces. -/
theorem split_rejoins {parts : List (List α)} (h : L.Rejoins a parts) : L.pieces ([a].intercalate parts) = parts ∧
    ∀ entry ∈ L.split ([a].intercalate parts), entry.2 = none ∨ entry.2 = some a := by
  rcases eq_nil_or_concat parts with rfl | ⟨init,last,rfl⟩
  · refine ⟨rfl,fun entry hentry => Or.inl ?_⟩
    rw [mem_singleton.mp hentry]
  · rw [concat_eq_append] at *
    obtain ⟨-,-,hclosed⟩ := pairwise_append.mp h.closed
    have hsplit : L.split ([a].intercalate (init ++ [last])) = init.map (fun piece => (piece,some a)) ++ [(last,none)] :=
      split_join (h.whole last (by simp)).1 fun piece hpiece => hclosed piece hpiece last (by simp)
    rw [pieces, hsplit]
    constructor
    · have hsame : (init.map (fun piece => (piece,some a)) ++ [(last,none)]).map Prod.fst = init ++ [last] := by simp [Function.comp_def]
      rw [hsame, filter_eq_self]
      intro piece hpiece
      simpa using (h.whole piece hpiece).2
    · intro entry hentry
      rcases mem_append.mp hentry with hentry | hentry
      · obtain ⟨piece,-,rfl⟩ := mem_map.mp hentry
        exact Or.inr rfl
      · rw [mem_singleton.mp hentry]
        exact Or.inl rfl

/-- Two splitters that end the same symbols in related states split alike. -/
theorem split_eq {M : Splitter τ α} {P : σ → α → Prop} {R : σ → τ → Prop} (hstart : R L.start M.start)
    (hstep : ∀ s t a, R s t → P s a → L.ends s a = M.ends t a ∧ (L.ends s a = false → R (L.step s a) (M.step t a))) {as : List α}
    (h : L.Along P L.start as) : L.split as = M.split as := by
  suffices hfrom : ∀ s t piece, R s t → L.Along P s as → L.splitFrom s piece as = M.splitFrom t piece as from
    hfrom _ _ [] hstart h
  clear h
  induction as with
  | nil => exact fun s t piece _ _ => rfl
  | cons a as ih =>
    intro s t piece hst h
    obtain ⟨ha,has⟩ := h
    obtain ⟨hends,hnext⟩ := hstep s t a hst ha
    rw [splitFrom, splitFrom, ← hends]
    split_ifs with hend
    · rw [if_pos hend] at has
      rw [ih _ _ [] hstart has]
    · rw [if_neg hend] at has
      exact ih _ _ _ (hnext (by simpa using hend)) has

end Splitter

end Unpeel.Splitters
