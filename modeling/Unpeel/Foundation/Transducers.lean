import Mathlib.Data.List.Basic

/-! # Transducers that are fed piece by piece

A transducer reads its input symbol by symbol and answers each with some output. Its input
comes in chunks; the state is all that is carried from one to the next.
-/
namespace Unpeel.Transducers
variable {σ τ α β : Type*} (step : σ → α → σ × List β)

def feed (s : σ) : List α → σ × List β
  | [] => (s,[])
  | a :: as => ((feed (step s a).1 as).1,(step s a).2 ++ (feed (step s a).1 as).2)

def feedChunks (scan : σ → List α → σ × List β) (s : σ) : List (List α) → σ × List β
  | [] => (s,[])
  | chunk :: chunks =>
    ((feedChunks scan (scan s chunk).1 chunks).1,(scan s chunk).2 ++ (feedChunks scan (scan s chunk).1 chunks).2)

variable {step}

theorem feed_append (s : σ) (a b : List α) :
    feed step s (a ++ b) = ((feed step (feed step s a).1 b).1,(feed step s a).2 ++ (feed step (feed step s a).1 b).2) := by
  induction a generalizing s with
  | nil => simp [feed]
  | cons x a ih => simp [feed, ih]

/-- Where a chunk is read as its symbols are, the chunks are read as one. -/
theorem feedChunks_eq {scan : σ → List α → σ × List β} (h : ∀ s chunk, scan s chunk = feed step s chunk) (s : σ)
    (chunks : List (List α)) : feedChunks scan s chunks = feed step s chunks.flatten := by
  induction chunks generalizing s with
  | nil => rfl
  | cons chunk chunks ih => rw [feedChunks, h, ih, List.flatten_cons, feed_append]

/-- Symbols that change nothing and put out nothing can be left out. -/
theorem feed_idle {s : σ} {as : List α} (h : ∀ a ∈ as, step s a = (s,[])) : feed step s as = (s,[]) := by
  induction as with
  | nil => rfl
  | cons a as ih =>
    have hrest := ih fun b hb => h b (List.mem_cons_of_mem _ hb)
    simp [feed, h a (List.mem_cons_self ..), hrest]

end Unpeel.Transducers
