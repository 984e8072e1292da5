import Unpeel.Session.PtyInput

/-! # The input stream and its frames

The parse loop of an input connection sees the stream in pieces. What it takes
out over all pieces is what it would take out of the whole stream at once, and
a stream made of frames gives back their payloads.
-/
namespace Unpeel.Session
open List

def parseInput (buf : List UInt8) : List (List UInt8) × List UInt8 × Bool := parseFrames buf.length buf

/-- Fuel past the length of the buffer changes nothing. -/
theorem parseFrames_fuel {fuel : ℕ} {buf : List UInt8} (h : buf.length ≤ fuel) :
    parseFrames fuel buf = parseInput buf := by
  have aux : ∀ (m n : ℕ) (buf : List UInt8), buf.length ≤ m → buf.length ≤ n →
      parseFrames m buf = parseFrames n buf := by
    intro m
    induction m with
    | zero =>
      intro n buf hm _
      have hnil : buf.length < sessionInputStreamFrameHeaderBytes := by
        simp only [sessionInputStreamFrameHeaderBytes]
        omega
      cases n <;> simp [parseFrames, hnil]
    | succ m ih =>
      intro n buf hm hn
      cases n with
      | zero =>
        have hnil : buf.length < sessionInputStreamFrameHeaderBytes := by
          simp only [sessionInputStreamFrameHeaderBytes]
          omega
        simp [parseFrames, hnil]
      | succ n =>
        have hdrop : ∀ k, (buf.drop (sessionInputStreamFrameHeaderBytes + k)).length ≤ buf.length - 1 := by
          intro k
          simp only [length_drop, sessionInputStreamFrameHeaderBytes]
          omega
        simp only [parseFrames]
        rw [ih n (buf.drop _) ((hdrop _).trans (by omega)) ((hdrop _).trans (by omega))]
  exact aux fuel buf.length buf h (Nat.le_refl _)

theorem parseInput_eq (buf : List UInt8) :
    parseInput buf =
      if buf.length < sessionInputStreamFrameHeaderBytes then ([],buf,false)
      else if sessionInputStreamMaxFrameBytes < BigEndian.readBe (buf.take 4) then ([],buf,true)
      else if buf.length < sessionInputStreamFrameHeaderBytes + BigEndian.readBe (buf.take 4) then ([],buf,false)
      else
        let payload := (buf.drop sessionInputStreamFrameHeaderBytes).take (BigEndian.readBe (buf.take 4))
        let next := parseInput
          (buf.drop (sessionInputStreamFrameHeaderBytes + BigEndian.readBe (buf.take 4)))
        (if payload = [] then next.1 else payload :: next.1,next.2) := by
  rw [← parseFrames_fuel (Nat.le_succ buf.length)]
  simp only [parseFrames]
  rw [parseFrames_fuel (by simp)]

/-- The frames of a stream do not depend on where it is cut. -/
theorem parseInput_append {x y rest : List UInt8} (h : (parseInput x).2 = (rest,false)) :
    parseInput (x ++ y) = ((parseInput x).1 ++ (parseInput (rest ++ y)).1,(parseInput (rest ++ y)).2) := by
  induction hn : x.length using Nat.strong_induction_on generalizing x with
  | _ n ih =>
    -- without a complete frame the whole buffer is the rest
    have hwhole : parseInput x = ([],x,false) → parseInput (x ++ y) =
        ((parseInput x).1 ++ (parseInput (rest ++ y)).1,(parseInput (rest ++ y)).2) := by
      intro hx
      rw [hx] at h ⊢
      cases h
      rfl
    rw [parseInput_eq x] at h
    by_cases hshort : x.length < sessionInputStreamFrameHeaderBytes
    · exact hwhole (by rw [parseInput_eq, if_pos hshort])
    rw [if_neg hshort] at h
    by_cases hbig : sessionInputStreamMaxFrameBytes < BigEndian.readBe (x.take 4)
    · rw [if_pos hbig] at h
      cases h
    rw [if_neg hbig] at h
    by_cases hpart : x.length < sessionInputStreamFrameHeaderBytes + BigEndian.readBe (x.take 4)
    · exact hwhole (by rw [parseInput_eq, if_neg hshort, if_neg hbig, if_pos hpart])
    rw [if_neg hpart] at h
    have hfour : 4 ≤ x.length := Nat.le_of_not_lt hshort
    have htake : (x ++ y).take 4 = x.take 4 := take_append_of_le_length hfour
    have hfit : sessionInputStreamFrameHeaderBytes + BigEndian.readBe (x.take 4) ≤ x.length :=
      Nat.le_of_not_lt hpart
    have hnext := ih _ (by
      simp only [length_drop, sessionInputStreamFrameHeaderBytes]
      omega) h rfl
    rw [parseInput_eq x, parseInput_eq (x ++ y), htake, length_append, if_neg (by omega), if_neg hbig,
      if_neg (by omega), if_neg hshort, if_neg hbig, if_neg hpart]
    have hpay : ((x ++ y).drop sessionInputStreamFrameHeaderBytes).take (BigEndian.readBe (x.take 4)) =
        (x.drop sessionInputStreamFrameHeaderBytes).take (BigEndian.readBe (x.take 4)) := by
      rw [drop_append_of_le_length (Nat.le_of_not_lt hshort), take_append_of_le_length]
      simp only [length_drop, sessionInputStreamFrameHeaderBytes] at hfit ⊢
      omega
    simp only [hpay, drop_append_of_le_length hfit, hnext]
    split <;> rfl

theorem parseInput_frame {data : List UInt8} (h : data.length ≤ sessionInputStreamMaxFrameBytes)
    (tail : List UInt8) :
    parseInput (inputStreamFrame data ++ tail) =
      (if data = [] then (parseInput tail).1 else data :: (parseInput tail).1,(parseInput tail).2) := by
  have hlen : BigEndian.readBe (BigEndian.beBytes 4 data.length) = data.length :=
    BigEndian.readBe_beBytes_of_lt (h.trans_lt (by decide))
  have hhead : (inputStreamFrame data ++ tail).take 4 = BigEndian.beBytes 4 data.length := by
    simp [inputStreamFrame, append_assoc]
  have hbody : (inputStreamFrame data ++ tail).drop 4 = data ++ tail := by
    simp [inputStreamFrame, append_assoc]
  have hsize : (inputStreamFrame data ++ tail).length = 4 + data.length + tail.length := by
    simp [inputStreamFrame, Nat.add_assoc]
  rw [parseInput_eq, hhead, hlen, hsize, if_neg (Nat.not_lt.mpr h), sessionInputStreamFrameHeaderBytes,
    if_neg (by omega), if_neg (by omega), hbody, ← drop_drop, hbody]
  simp

/-- Frames give back what was sent, without the empty ones, and leave what follows as it is. -/
theorem parseInput_frames {payloads : List (List UInt8)}
    (h : ∀ p ∈ payloads, p.length ≤ sessionInputStreamMaxFrameBytes) (tail : List UInt8) :
    parseInput ((payloads.map inputStreamFrame).flatten ++ tail) =
      (payloads.filter (· ≠ []) ++ (parseInput tail).1,(parseInput tail).2) := by
  induction payloads with
  | nil => simp
  | cons p payloads ih =>
    rw [map_cons, flatten_cons, append_assoc, parseInput_frame (h p (by simp)),
      ih (fun q hq => h q (by simp [hq]))]
    by_cases hp : p = []
    · simp [hp]
    · simp [hp]

theorem parseInput_frames_two : parseInput ((([[7],[],[8,9]] : List (List UInt8)).map inputStreamFrame).flatten ++ [0]) =
    ([[7],[8,9]] ++ (parseInput [0]).1,(parseInput [0]).2) :=
  parseInput_frames (by decide) [0]

theorem readInput_append (reads : List ReadResult) (buf : List UInt8) :
    buf <+: (readInput reads buf).1 := by
  induction reads generalizing buf with
  | nil => exact prefix_rfl
  | cons result reads ih =>
    cases result with
    | data bytes =>
      simp only [readInput]
      split_ifs
      · exact prefix_rfl
      · exact prefix_append _ _
      · exact (prefix_append _ _).trans (ih _)
    | wouldBlock | error => exact prefix_rfl
    | interrupted => exact ih buf

end Unpeel.Session
