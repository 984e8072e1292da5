import Unpeel.Foundation.BigEndian
import Unpeel.Manifest.Record

/-! # Answers to STUN binding requests

`parse_stun_response` looks for the XOR-MAPPED-ADDRESS in whatever comes from the network. An
index or a range that is not in its slice panics.
-/
namespace Unpeel.Remote
open BigEndian Manifest

inductive Outcome (α : Type) where
  | ok (value : α)
  | error (message : Text)
  | panicked
deriving DecidableEq

namespace Outcome
variable {α β : Type}

def bind : Outcome α → (α → Outcome β) → Outcome β
  | .ok value, f => f value
  | .error message, _ => .error message
  | .panicked, _ => .panicked

instance : Monad Outcome where
  pure := .ok
  bind := bind

@[simp] theorem pure_eq (value : α) : (pure value : Outcome α) = .ok value := rfl

@[simp] theorem ok_bind (value : α) (f : α → Outcome β) : (Outcome.ok value >>= f) = f value := rfl

@[simp] theorem error_bind (message : Text) (f : α → Outcome β) : (Outcome.error message >>= f) = .error message := rfl

@[simp] theorem panicked_bind (f : α → Outcome β) : (Outcome.panicked >>= f) = .panicked := rfl

end Outcome

inductive IpAddr where
  | v4 (raw : UInt32)
  | v6 (octets : Vector UInt8 16)
deriving DecidableEq

structure StunAddr where
  ip : IpAddr
  port : UInt16
deriving DecidableEq

namespace Stun
open Outcome

section Access
variable {α : Type}

/-- `bytes[i]`. -/
def index (bytes : List α) (i : ℕ) : Outcome α :=
  match bytes[i]? with
  | some value => .ok value
  | none => .panicked

/-- `bytes[a..b]`. -/
def slice (bytes : List α) (a b : ℕ) : Outcome (List α) :=
  if a ≤ b ∧ b ≤ bytes.length then .ok ((bytes.take b).drop a) else .panicked

def orError (value : Option α) (message : String) : Outcome α :=
  match value with
  | some value => .ok value
  | none => .error message.toList

end Access

def magicCookie : UInt32 := 0x2112A442
def bindingSuccess : List UInt8 := [0x01,0x01]
def xorMappedAddress : ℕ := 0x0020

/-- `bytes.get(a..b)`. -/
def getRange (bytes : List UInt8) (a b : ℕ) : Option (List UInt8) :=
  if a ≤ b ∧ b ≤ bytes.length then some ((bytes.take b).drop a) else none

/-- `try_into` an array of this length. -/
def toArray (n : ℕ) (bytes : List UInt8) : Option (Vector UInt8 n) :=
  if h : bytes.length = n then some ⟨bytes.toArray,h⟩ else none

def mask (transaction : Vector UInt8 12) : Vector UInt8 16 := (#v[0x21,0x12,0xA4,0x42] : Vector UInt8 4) ++ transaction

def parseAddress (value : List UInt8) (transaction : Vector UInt8 12) : Outcome StunAddr := do
  if value.length < 8 then .error "short xor-mapped-address".toList
  else
    let high ← index value 2
    let low ← index value 3
    let port := UInt16.ofNat (readBe [high,low]) ^^^ 0x2112
    let family ← index value 1
    if family = 0x01 then
      let raw ← slice value 4 8
      return ⟨.v4 (UInt32.ofNat (readBe raw) ^^^ magicCookie),port⟩
    else if family = 0x02 then
      let raw ← slice value 4 20
      let raw ← orError (toArray 16 raw) "short v6 xor-mapped-address"
      return ⟨.v6 (raw.zipWith (· ^^^ ·) (mask transaction)),port⟩
    else .error "unknown stun address family".toList

/-- `length` with its padding. -/
def padded (length : ℕ) : ℕ := (length + 3) / 4 * 4

def findAddress (bytes : List UInt8) (transaction : Vector UInt8 12) (offset : ℕ) : Outcome StunAddr :=
  if offset + 4 ≤ bytes.length then do
    let kindHigh ← index bytes offset
    let kindLow ← index bytes (offset + 1)
    let lengthHigh ← index bytes (offset + 2)
    let lengthLow ← index bytes (offset + 3)
    let length := readBe [lengthHigh,lengthLow]
    let value ← orError (getRange bytes (offset + 4) (offset + 4 + length)) "truncated stun attribute"
    if readBe [kindHigh,kindLow] = xorMappedAddress then parseAddress value transaction
    else findAddress bytes transaction (offset + (4 + padded length))
  else .error "no xor-mapped-address attribute".toList
termination_by bytes.length - offset

def parseStunResponse (bytes : List UInt8) (transaction : Vector UInt8 12) : Outcome StunAddr := do
  if bytes.length < 20 then .error "not a stun binding success".toList
  else
    let kind ← slice bytes 0 2
    if kind ≠ bindingSuccess then .error "not a stun binding success".toList
    else
      let id ← slice bytes 8 20
      if id ≠ transaction.toList then .error "stun transaction mismatch".toList
      else findAddress bytes transaction 20

section Format

structure Attribute where
  kind : ℕ
  value : List UInt8
  padding : List UInt8
  kind_lt : kind < 256 ^ 2
  length_lt : value.length < 256 ^ 2
  padding_length : padding.length = padded value.length - value.length

def Attribute.bytes (a : Attribute) : List UInt8 := beBytes 2 a.kind ++ beBytes 2 a.value.length ++ a.value ++ a.padding

/-- A binding success for the transaction; `value` is that of its first XOR-MAPPED-ADDRESS. -/
def FirstAddress (bytes : List UInt8) (transaction : Vector UInt8 12) (value : List UInt8) : Prop :=
  ∃ (header : List UInt8) (before : List Attribute) (rest : List UInt8),
    header.length = 6 ∧ (∀ a ∈ before, a.kind ≠ xorMappedAddress) ∧ value.length < 256 ^ 2 ∧
      bytes = bindingSuccess ++ header ++ transaction.toList ++ before.flatMap Attribute.bytes ++
        (beBytes 2 xorMappedAddress ++ beBytes 2 value.length ++ value) ++ rest

def UnXors (value : List UInt8) (transaction : Vector UInt8 12) (addr : StunAddr) : Prop :=
  ∃ (reserved family : UInt8) (port address rest : List UInt8), value = reserved :: family :: port ++ address ++ rest ∧
    port.length = 2 ∧ UInt16.ofNat (readBe port) = addr.port ^^^ 0x2112 ∧
      match addr.ip with
      | .v4 raw => family = 0x01 ∧ address.length = 4 ∧ UInt32.ofNat (readBe address) = raw ^^^ magicCookie
      | .v6 octets => family = 0x02 ∧ address = (octets.zipWith (· ^^^ ·) (mask transaction)).toList

/-- No panic, and an address only if the message gives it. `fits` is what an IPv4 value may have as its length. -/
def Sound (fits : ℕ → Prop) (bytes : List UInt8) (transaction : Vector UInt8 12) : Prop :=
  parseStunResponse bytes transaction ≠ .panicked ∧
    ∀ addr, parseStunResponse bytes transaction = .ok addr →
      ∃ value, FirstAddress bytes transaction value ∧ UnXors value transaction addr ∧
        match addr.ip with
        | .v4 _ => fits value.length
        | .v6 _ => 20 ≤ value.length

def LongV4 (bytes : List UInt8) (transaction : Vector UInt8 12) : Prop :=
  ∃ value, FirstAddress bytes transaction value ∧ value[1]? = some 0x01 ∧ 8 < value.length

def ShortV6 (bytes : List UInt8) (transaction : Vector UInt8 12) : Prop :=
  ∃ value, FirstAddress bytes transaction value ∧ value[1]? = some 0x02 ∧ 8 ≤ value.length ∧ value.length < 20

end Format

section Address
variable {value : List UInt8} {transaction : Vector UInt8 12} {addr : StunAddr}

theorem four_parts {bytes : List UInt8} (h : 4 ≤ bytes.length) : ∃ a b c d rest, bytes = a :: b :: c :: d :: rest := by
  rcases bytes with _ | ⟨a,_ | ⟨b,_ | ⟨c,_ | ⟨d,rest⟩⟩⟩⟩
  case cons.cons.cons.cons => exact ⟨a,b,c,d,rest,rfl⟩
  all_goals
    simp only [List.length_cons, List.length_nil] at h
    omega

theorem value_parts (h : 8 ≤ value.length) :
    ∃ reserved family p₁ p₂ a₁ a₂ a₃ a₄ rest, value = reserved :: family :: p₁ :: p₂ :: a₁ :: a₂ :: a₃ :: a₄ :: rest := by
  obtain ⟨reserved,family,p₁,p₂,address,rfl⟩ := four_parts (Nat.le_trans (by decide) h)
  have haddress : 4 ≤ address.length := by
    simp only [List.length_cons] at h
    omega
  obtain ⟨a₁,a₂,a₃,a₄,rest,rfl⟩ := four_parts haddress
  exact ⟨reserved,family,p₁,p₂,a₁,a₂,a₃,a₄,rest,rfl⟩

section Long
variable (reserved family p₁ p₂ a₁ a₂ a₃ a₄ : UInt8) (rest : List UInt8)

theorem slice_v4 : slice (reserved :: family :: p₁ :: p₂ :: a₁ :: a₂ :: a₃ :: a₄ :: rest) 4 8 = .ok [a₁,a₂,a₃,a₄] := by
  simp [slice]

theorem slice_v6 : slice (reserved :: family :: p₁ :: p₂ :: a₁ :: a₂ :: a₃ :: a₄ :: rest) 4 20 =
    if 12 ≤ rest.length then .ok (a₁ :: a₂ :: a₃ :: a₄ :: rest.take 12) else .panicked := by
  simp [slice]

theorem toArray_of_length {n : ℕ} {bytes : List UInt8} (h : bytes.length = n) : toArray n bytes = some ⟨bytes.toArray,h⟩ :=
  dif_pos h

theorem length_v6 {rest : List UInt8} (h : 12 ≤ rest.length) : (a₁ :: a₂ :: a₃ :: a₄ :: rest.take 12).length = 16 := by
  simpa using h

theorem parseAddress_long : parseAddress (reserved :: family :: p₁ :: p₂ :: a₁ :: a₂ :: a₃ :: a₄ :: rest) transaction =
    if family = 0x01 then
      .ok ⟨.v4 (UInt32.ofNat (readBe [a₁,a₂,a₃,a₄]) ^^^ magicCookie),UInt16.ofNat (readBe [p₁,p₂]) ^^^ 0x2112⟩
    else if family = 0x02 then
      if h : 12 ≤ rest.length then
        .ok ⟨.v6 ((⟨(a₁ :: a₂ :: a₃ :: a₄ :: rest.take 12).toArray,length_v6 a₁ a₂ a₃ a₄ h⟩ : Vector UInt8 16).zipWith
          (· ^^^ ·) (mask transaction)),UInt16.ofNat (readBe [p₁,p₂]) ^^^ 0x2112⟩
      else .panicked
    else .error "unknown stun address family".toList := by
  have hlong : ¬ (reserved :: family :: p₁ :: p₂ :: a₁ :: a₂ :: a₃ :: a₄ :: rest).length < 8 := by
    simp only [List.length_cons]
    omega
  have hone : index (reserved :: family :: p₁ :: p₂ :: a₁ :: a₂ :: a₃ :: a₄ :: rest) 1 = .ok family := rfl
  have htwo : index (reserved :: family :: p₁ :: p₂ :: a₁ :: a₂ :: a₃ :: a₄ :: rest) 2 = .ok p₁ := rfl
  have hthree : index (reserved :: family :: p₁ :: p₂ :: a₁ :: a₂ :: a₃ :: a₄ :: rest) 3 = .ok p₂ := rfl
  unfold parseAddress
  rw [if_neg hlong, hone, htwo, hthree, slice_v4, slice_v6]
  simp only [ok_bind]
  split_ifs with hv4 hv6 h
  · rfl
  · simp only [ok_bind, toArray_of_length (length_v6 a₁ a₂ a₃ a₄ h)]
    rfl
  · rfl
  · rfl

end Long

theorem zipWith_xor_xor {n : ℕ} (octets mask : Vector UInt8 n) : (octets.zipWith (· ^^^ ·) mask).zipWith (· ^^^ ·) mask = octets := by
  ext i hi
  rw [Vector.getElem_zipWith, Vector.getElem_zipWith, UInt8.xor_assoc, UInt8.xor_self, UInt8.xor_zero]

theorem parseAddress_panicked :
    parseAddress value transaction = .panicked ↔ value[1]? = some 0x02 ∧ 8 ≤ value.length ∧ value.length < 20 := by
  by_cases hlength : value.length < 8
  · have hshort : parseAddress value transaction = .error "short xor-mapped-address".toList := by
      unfold parseAddress
      rw [if_pos hlength]
    rw [hshort]
    constructor
    · exact nofun
    · omega
  · obtain ⟨reserved,family,p₁,p₂,a₁,a₂,a₃,a₄,rest,rfl⟩ := value_parts (Nat.le_of_not_lt hlength)
    rw [parseAddress_long]
    simp only [List.getElem?_cons_succ, List.getElem?_cons_zero, Option.some.injEq, List.length_cons]
    split_ifs with hv4 hv6 hlong
    · simp [hv4]
    · simp only [false_iff]
      omega
    · simp only [hv6, true_and, true_iff]
      omega
    · simp [hv6]

theorem parseAddress_ok (h : parseAddress value transaction = .ok addr) :
    UnXors value transaction addr ∧
      match addr.ip with
      | .v4 _ => value[1]? = some 0x01 ∧ 8 ≤ value.length
      | .v6 _ => 20 ≤ value.length := by
  by_cases hlength : value.length < 8
  · unfold parseAddress at h
    rw [if_pos hlength] at h
    cases h
  · obtain ⟨reserved,family,p₁,p₂,a₁,a₂,a₃,a₄,rest,rfl⟩ := value_parts (Nat.le_of_not_lt hlength)
    rw [parseAddress_long] at h
    split_ifs at h with hv4 hv6 hlong
    · cases h
      refine ⟨⟨reserved,family,[p₁,p₂],[a₁,a₂,a₃,a₄],rest,rfl,rfl,?_,hv4,rfl,?_⟩,?_⟩
      · rw [UInt16.xor_assoc, UInt16.xor_self, UInt16.xor_zero]
      · rw [UInt32.xor_assoc, UInt32.xor_self, UInt32.xor_zero]
      · simp [hv4]
    · cases h
      refine ⟨⟨reserved,family,[p₁,p₂],a₁ :: a₂ :: a₃ :: a₄ :: rest.take 12,rest.drop 12,?_,rfl,?_,hv6,?_⟩,?_⟩
      · simp
      · rw [UInt16.xor_assoc, UInt16.xor_self, UInt16.xor_zero]
      · rw [zipWith_xor_xor]
        rfl
      · simp only [List.length_cons]
        omega

theorem parseAddress_v4 (transaction : Vector UInt8 12) (hfamily : value[1]? = some 0x01) (hlength : 8 ≤ value.length) :
    ∃ raw port, parseAddress value transaction = .ok ⟨.v4 raw,port⟩ := by
  obtain ⟨reserved,family,p₁,p₂,a₁,a₂,a₃,a₄,rest,rfl⟩ := value_parts hlength
  rw [parseAddress_long, if_pos (by simpa using hfamily)]
  exact ⟨_,_,rfl⟩

end Address

section Attributes
variable {bytes value : List UInt8} {transaction : Vector UInt8 12} {offset : ℕ}

theorem padded_ge (length : ℕ) : length ≤ padded length := by
  unfold padded
  omega

theorem Attribute.length_bytes (a : Attribute) : a.bytes.length = 4 + padded a.value.length := by
  have hpadding := a.padding_length
  have hge := padded_ge a.value.length
  simp [bytes]
  omega

theorem beBytes_pair {n : ℕ} (h : n < 256 ^ 2) : ∃ high low, beBytes 2 n = [high,low] ∧ readBe [high,low] = n :=
  ⟨_,_,rfl,readBe_beBytes_of_lt h⟩

theorem pair_readBe (high low : UInt8) : beBytes 2 (readBe [high,low]) = [high,low] := by
  have hlow := low.toNat_lt
  have hsplit : readBe [high,low] = high.toNat * 256 + low.toNat := by simp [readBe]
  have hfirst : (high.toNat * 256 + low.toNat) / 256 = high.toNat := by omega
  rw [hsplit]
  simp [beBytes, hfirst, UInt8.ofNat_toNat]

theorem slice_append (before middle rest : List UInt8) :
    slice (before ++ middle ++ rest) before.length (before.length + middle.length) = .ok middle := by
  simp [slice, List.take_append]

theorem getRange_append (before middle rest : List UInt8) :
    getRange (before ++ middle ++ rest) before.length (before.length + middle.length) = some middle := by
  simp [getRange, List.take_append]

theorem findAddress_head (start : List UInt8) (k₁ k₂ l₁ l₂ : UInt8) (tail : List UInt8) :
    findAddress (start ++ k₁ :: k₂ :: l₁ :: l₂ :: tail) transaction start.length =
      (orError (getRange (start ++ k₁ :: k₂ :: l₁ :: l₂ :: tail) (start.length + 4) (start.length + 4 + readBe [l₁,l₂]))
        "truncated stun attribute").bind fun value =>
          if readBe [k₁,k₂] = xorMappedAddress then parseAddress value transaction
          else findAddress (start ++ k₁ :: k₂ :: l₁ :: l₂ :: tail) transaction (start.length + (4 + padded (readBe [l₁,l₂]))) := by
  have hlong : start.length + 4 ≤ (start ++ k₁ :: k₂ :: l₁ :: l₂ :: tail).length := by
    simp
  have hzero : index (start ++ k₁ :: k₂ :: l₁ :: l₂ :: tail) start.length = .ok k₁ := by simp [index]
  have hone : index (start ++ k₁ :: k₂ :: l₁ :: l₂ :: tail) (start.length + 1) = .ok k₂ := by simp [index]
  have htwo : index (start ++ k₁ :: k₂ :: l₁ :: l₂ :: tail) (start.length + 2) = .ok l₁ := by simp [index]
  have hthree : index (start ++ k₁ :: k₂ :: l₁ :: l₂ :: tail) (start.length + 3) = .ok l₂ := by simp [index]
  rw [findAddress, if_pos hlong, hzero, hone, htwo, hthree]
  rfl

theorem findAddress_at (transaction : Vector UInt8 12) {kind : ℕ} (start rest : List UInt8) (hkind : kind < 256 ^ 2)
    (hlength : value.length < 256 ^ 2) :
    findAddress (start ++ (beBytes 2 kind ++ beBytes 2 value.length ++ value) ++ rest) transaction start.length =
      if kind = xorMappedAddress then parseAddress value transaction
      else findAddress (start ++ (beBytes 2 kind ++ beBytes 2 value.length ++ value) ++ rest) transaction
        (start.length + (4 + padded value.length)) := by
  obtain ⟨k₁,k₂,hk,hreadKind⟩ := beBytes_pair hkind
  obtain ⟨l₁,l₂,hl,hreadLength⟩ := beBytes_pair hlength
  have hbytes : start ++ (beBytes 2 kind ++ beBytes 2 value.length ++ value) ++ rest =
      start ++ k₁ :: k₂ :: l₁ :: l₂ :: (value ++ rest) := by
    rw [hk, hl]
    simp
  have hvalue : getRange (start ++ k₁ :: k₂ :: l₁ :: l₂ :: (value ++ rest)) (start.length + 4) (start.length + 4 + value.length) =
      some value := by
    have hrange := getRange_append (start ++ [k₁,k₂,l₁,l₂]) value rest
    simpa using hrange
  rw [hbytes, findAddress_head, hreadLength, hreadKind, hvalue]
  rfl

theorem findAddress_skip (transaction : Vector UInt8 12) (start rest : List UInt8) {a : Attribute} (ha : a.kind ≠ xorMappedAddress) :
    findAddress (start ++ a.bytes ++ rest) transaction start.length =
      findAddress (start ++ a.bytes ++ rest) transaction (start ++ a.bytes).length := by
  have hparts : start ++ a.bytes ++ rest =
      start ++ (beBytes 2 a.kind ++ beBytes 2 a.value.length ++ a.value) ++ (a.padding ++ rest) := by
    simp [Attribute.bytes]
  have hlength : (start ++ a.bytes).length = start.length + (4 + padded a.value.length) := by
    rw [List.length_append, a.length_bytes]
  rw [hlength, hparts, findAddress_at transaction start _ a.kind_lt a.length_lt, if_neg ha]

/-- The loop ends without the address, or finds the first one. -/
theorem findAddress_spec (start : List UInt8) (transaction : Vector UInt8 12) (rest : List UInt8) :
    (∃ message, findAddress (start ++ rest) transaction start.length = .error message) ∨
      ∃ (before : List Attribute) (value after : List UInt8), (∀ a ∈ before, a.kind ≠ xorMappedAddress) ∧
        value.length < 256 ^ 2 ∧
        rest = before.flatMap Attribute.bytes ++ (beBytes 2 xorMappedAddress ++ beBytes 2 value.length ++ value) ++ after ∧
        findAddress (start ++ rest) transaction start.length = parseAddress value transaction := by
  induction hn : rest.length using Nat.strong_induction_on generalizing start rest with
  | _ n ih =>
    by_cases hlong : 4 ≤ rest.length
    · obtain ⟨k₁,k₂,l₁,l₂,tail,rfl⟩ := four_parts hlong
      have hkind : readBe [k₁,k₂] < 256 ^ 2 := readBe_lt [k₁,k₂]
      have hlengthLt : readBe [l₁,l₂] < 256 ^ 2 := readBe_lt [l₁,l₂]
      by_cases hcomplete : readBe [l₁,l₂] ≤ tail.length
      · obtain ⟨value,after,rfl,hvalue⟩ : ∃ value after, tail = value ++ after ∧ value.length = readBe [l₁,l₂] :=
          ⟨tail.take (readBe [l₁,l₂]),tail.drop (readBe [l₁,l₂]),(List.take_append_drop _ _).symm,
            List.length_take_of_le hcomplete⟩
        rw [← hvalue] at hlengthLt
        have hparts : k₁ :: k₂ :: l₁ :: l₂ :: (value ++ after) =
            beBytes 2 (readBe [k₁,k₂]) ++ beBytes 2 value.length ++ value ++ after := by
          rw [hvalue, pair_readBe, pair_readBe]
          rfl
        have hat := findAddress_at transaction start after hkind hlengthLt
        rw [hparts, ← List.append_assoc start, hat]
        by_cases haddress : readBe [k₁,k₂] = xorMappedAddress
        · right
          rw [if_pos haddress]
          refine ⟨[],value,after,fun _ hno => absurd hno List.not_mem_nil,hlengthLt,?_,rfl⟩
          rw [haddress]
          rfl
        · rw [if_neg haddress]
          by_cases hroom : padded value.length - value.length ≤ after.length
          · obtain ⟨padding,rest,rfl,hpadding⟩ : ∃ padding rest, after = padding ++ rest ∧
                padding.length = padded value.length - value.length :=
              ⟨after.take _,after.drop _,(List.take_append_drop _ _).symm,List.length_take_of_le hroom⟩
            let a : Attribute := ⟨readBe [k₁,k₂],value,padding,hkind,hlengthLt,hpadding⟩
            have hbytes : beBytes 2 (readBe [k₁,k₂]) ++ beBytes 2 value.length ++ value ++ (padding ++ rest) = a.bytes ++ rest := by
              simp [a, Attribute.bytes]
            have hoffset : start.length + (4 + padded value.length) = (start ++ a.bytes).length := by
              rw [List.length_append, a.length_bytes]
            have hshorter : rest.length < n := by
              rw [← hn]
              simp
              omega
            rw [List.append_assoc start, hbytes, hoffset, ← List.append_assoc start]
            rcases ih rest.length hshorter (start ++ a.bytes) rest rfl with herror | ⟨before,value',after,hbefore,hlt,hrest,hread⟩
            · exact .inl herror
            · refine .inr ⟨a :: before,value',after,?_,hlt,?_,hread⟩
              · rintro b hb
                rcases List.mem_cons.mp hb with rfl | hb
                · exact haddress
                · exact hbefore b hb
              · rw [hrest]
                simp only [List.flatMap_cons, List.append_assoc]
          · left
            rw [findAddress, if_neg]
            · exact ⟨_,rfl⟩
            · have hge := padded_ge value.length
              simp
              omega
      · left
        have hnone : getRange (start ++ k₁ :: k₂ :: l₁ :: l₂ :: tail) (start.length + 4)
            (start.length + 4 + readBe [l₁,l₂]) = none := by
          unfold getRange
          simp
          omega
        rw [findAddress_head, hnone]
        exact ⟨_,rfl⟩
    · left
      rw [findAddress, if_neg (by rw [List.length_append]; omega)]
      exact ⟨_,rfl⟩

theorem findAddress_first (transaction : Vector UInt8 12) (start : List UInt8) {before : List Attribute} (hbefore : ∀ a ∈ before, a.kind ≠ xorMappedAddress)
    (hlength : value.length < 256 ^ 2) (rest : List UInt8) :
    findAddress (start ++ (before.flatMap Attribute.bytes ++
      (beBytes 2 xorMappedAddress ++ beBytes 2 value.length ++ value) ++ rest)) transaction start.length =
        parseAddress value transaction := by
  induction before generalizing start with
  | nil =>
    rw [List.flatMap_nil, List.nil_append, ← List.append_assoc, findAddress_at _ _ _ (by decide) hlength, if_pos rfl]
  | cons a before ih =>
    have hnext := ih (start ++ a.bytes) fun b hb => hbefore b (List.mem_cons_of_mem _ hb)
    have hskip := findAddress_skip transaction start (before.flatMap Attribute.bytes ++
      (beBytes 2 xorMappedAddress ++ beBytes 2 value.length ++ value) ++ rest) (hbefore a (List.mem_cons_self ..))
    rw [List.flatMap_cons, List.append_assoc a.bytes, List.append_assoc a.bytes, ← List.append_assoc start, hskip, hnext]

end Attributes

section Messages
variable {bytes value : List UInt8} {transaction : Vector UInt8 12}
variable {value' rest rest' : List UInt8}

section Header
variable {kind header rest : List UInt8} (hkind : kind.length = 2) (hheader : header.length = 6)
include hkind hheader

/-- What the parser looks at before the attributes. -/
theorem parse_header (transaction id : Vector UInt8 12) (rest : List UInt8) :
    parseStunResponse (kind ++ header ++ id.toList ++ rest) transaction =
      if kind ≠ bindingSuccess then .error "not a stun binding success".toList
      else if id.toList ≠ transaction.toList then .error "stun transaction mismatch".toList
      else findAddress (kind ++ header ++ id.toList ++ rest) transaction 20 := by
  have hid : id.toList.length = 12 := id.length_toList
  generalize hbytes : kind ++ header ++ id.toList ++ rest = bytes
  have hlong : ¬ bytes.length < 20 := by
    rw [← hbytes]
    simp only [List.length_append]
    omega
  have hfirst : slice bytes 0 2 = .ok kind := by
    have hrange := slice_append [] kind (header ++ id.toList ++ rest)
    simpa [hkind, ← hbytes] using hrange
  have hsecond : slice bytes 8 20 = .ok id.toList := by
    have hrange := slice_append (kind ++ header) id.toList rest
    simpa [hkind, hheader, ← hbytes] using hrange
  unfold parseStunResponse
  rw [if_neg hlong, hfirst, ok_bind, hsecond]
  rfl

end Header

theorem parse_first (h : FirstAddress bytes transaction value) :
    parseStunResponse bytes transaction = parseAddress value transaction := by
  obtain ⟨header,before,rest,hheader,hbefore,hlength,hbytes⟩ := h
  have hstart : (bindingSuccess ++ header ++ transaction.toList).length = 20 := by
    simp only [List.length_append, hheader, transaction.length_toList]
    rfl
  have hfind := findAddress_first transaction (bindingSuccess ++ header ++ transaction.toList) hbefore hlength rest
  rw [List.append_assoc _ (before.flatMap Attribute.bytes), List.append_assoc _ (_ ++ _)] at hbytes
  rw [hbytes, parse_header rfl hheader, if_neg (not_not_intro rfl), if_neg (not_not_intro rfl), ← hstart, hfind]

/-- A message is refused, or its first address is read. -/
theorem parse_spec (bytes : List UInt8) (transaction : Vector UInt8 12) :
    (∃ message, parseStunResponse bytes transaction = .error message) ∨
      ∃ value, FirstAddress bytes transaction value ∧ parseStunResponse bytes transaction = parseAddress value transaction := by
  by_cases hlong : bytes.length < 20
  · left
    unfold parseStunResponse
    rw [if_pos hlong]
    exact ⟨_,rfl⟩
  · obtain ⟨kind,header,id,rest,rfl,hkind,hheader,hid⟩ : ∃ kind header id rest : List UInt8,
        bytes = kind ++ header ++ id ++ rest ∧ kind.length = 2 ∧ header.length = 6 ∧ id.length = 12 := by
      refine ⟨bytes.take 2,(bytes.drop 2).take 6,(bytes.drop 8).take 12,bytes.drop 20,?_,?_,?_,?_⟩
      · have height := List.take_add (l := bytes) (i := 2) (j := 6)
        have htwenty := List.take_add (l := bytes) (i := 8) (j := 12)
        rw [← height, ← htwenty, List.take_append_drop]
      all_goals
        simp only [List.length_take, List.length_drop]
        omega
    obtain ⟨id,rfl⟩ : ∃ id' : Vector UInt8 12, id = id'.toList := ⟨⟨id.toArray,hid⟩,rfl⟩
    rw [parse_header hkind hheader]
    split_ifs with hsuccess hmine
    · exact .inl ⟨_,rfl⟩
    · exact .inl ⟨_,rfl⟩
    · rw [not_not] at hsuccess hmine
      subst hsuccess
      rw [hmine]
      have hstart : (bindingSuccess ++ header ++ transaction.toList).length = 20 := by
        simp only [List.length_append, hheader, transaction.length_toList]
        rfl
      rw [← hstart]
      rcases findAddress_spec (bindingSuccess ++ header ++ transaction.toList) transaction rest with
        herror | ⟨before,value,after,hbefore,hlength,hrest,hread⟩
      · exact .inl herror
      · refine .inr ⟨value,⟨header,before,after,hheader,hbefore,hlength,?_⟩,hread⟩
        rw [hrest]
        simp only [List.append_assoc]

theorem panicked_iff : parseStunResponse bytes transaction = .panicked ↔ ShortV6 bytes transaction := by
  constructor
  · intro h
    rcases parse_spec bytes transaction with ⟨message,herror⟩ | ⟨value,hfirst,hread⟩
    · rw [h] at herror
      cases herror
    · exact ⟨value,hfirst,parseAddress_panicked.mp (hread ▸ h)⟩
  · rintro ⟨value,hfirst,hshort⟩
    rw [parse_first hfirst]
    exact parseAddress_panicked.mpr hshort

theorem parse_ok {addr : StunAddr} (h : parseStunResponse bytes transaction = .ok addr) :
    ∃ value, FirstAddress bytes transaction value ∧ UnXors value transaction addr ∧
      match addr.ip with
      | .v4 _ => value[1]? = some 0x01 ∧ 8 ≤ value.length
      | .v6 _ => 20 ≤ value.length := by
  rcases parse_spec bytes transaction with ⟨message,herror⟩ | ⟨value,hfirst,hread⟩
  · rw [h] at herror
    cases herror
  · exact ⟨value,hfirst,parseAddress_ok (hread ▸ h)⟩

theorem header_inj {kind kind' : ℕ} {value : List UInt8} (hkind : kind < 256 ^ 2) (hkind' : kind' < 256 ^ 2)
    (hlength : value.length < 256 ^ 2) (hlength' : value'.length < 256 ^ 2)
    (h : beBytes 2 kind ++ beBytes 2 value.length ++ value ++ rest = beBytes 2 kind' ++ beBytes 2 value'.length ++ value' ++ rest') :
    kind = kind' ∧ value = value' ∧ rest = rest' := by
  simp only [List.append_assoc] at h
  obtain ⟨hk,h⟩ := List.append_inj h (by simp)
  obtain ⟨hl,h⟩ := List.append_inj h (by simp)
  obtain ⟨hv,hrest⟩ := List.append_inj h (beBytes_inj hlength hlength' hl)
  exact ⟨beBytes_inj hkind hkind' hk,hv,hrest⟩

theorem Attribute.bytes_append (a : Attribute) (rest : List UInt8) :
    a.bytes ++ rest = beBytes 2 a.kind ++ beBytes 2 a.value.length ++ a.value ++ (a.padding ++ rest) := by
  simp only [bytes, List.append_assoc]

theorem Attribute.rest_inj {a a' : Attribute} (h : a.bytes ++ rest = a'.bytes ++ rest') : rest = rest' := by
  rw [a.bytes_append, a'.bytes_append] at h
  obtain ⟨-,hvalue,hrest⟩ := header_inj a.kind_lt a'.kind_lt a.length_lt a'.length_lt h
  exact (List.append_inj hrest (by rw [a.padding_length, a'.padding_length, hvalue])).2

theorem Attribute.kind_of_address {a : Attribute} (hlength : value.length < 256 ^ 2)
    (h : a.bytes ++ rest = beBytes 2 xorMappedAddress ++ beBytes 2 value.length ++ value ++ rest') : a.kind = xorMappedAddress := by
  rw [a.bytes_append] at h
  exact (header_inj a.kind_lt (by decide) a.length_lt hlength h).1

theorem attributes_unique {before before' : List Attribute}
    (hbefore : ∀ a ∈ before, a.kind ≠ xorMappedAddress) (hbefore' : ∀ a ∈ before', a.kind ≠ xorMappedAddress)
    (hlength : value.length < 256 ^ 2) (hlength' : value'.length < 256 ^ 2)
    (h : before.flatMap Attribute.bytes ++ (beBytes 2 xorMappedAddress ++ beBytes 2 value.length ++ value ++ rest) =
      before'.flatMap Attribute.bytes ++ (beBytes 2 xorMappedAddress ++ beBytes 2 value'.length ++ value' ++ rest')) :
    value = value' := by
  have hbound : xorMappedAddress < 256 ^ 2 := by decide
  induction before generalizing before' with
  | nil =>
    cases before' with
    | nil => exact (header_inj hbound hbound hlength hlength' h).2.1
    | cons a before' =>
      rw [List.flatMap_cons, List.append_assoc a.bytes] at h
      exact absurd (Attribute.kind_of_address hlength h.symm) (hbefore' a (List.mem_cons_self ..))
  | cons a before ih =>
    cases before' with
    | nil =>
      rw [List.flatMap_cons, List.append_assoc a.bytes] at h
      exact absurd (Attribute.kind_of_address hlength' h) (hbefore a (List.mem_cons_self ..))
    | cons a' before' =>
      rw [List.flatMap_cons, List.flatMap_cons, List.append_assoc a.bytes, List.append_assoc a'.bytes] at h
      exact ih (fun b hb => hbefore b (List.mem_cons_of_mem _ hb)) (fun b hb => hbefore' b (List.mem_cons_of_mem _ hb))
        (Attribute.rest_inj h)

theorem first_unique (h : FirstAddress bytes transaction value) (h' : FirstAddress bytes transaction value') :
    value = value' := by
  obtain ⟨header,before,rest,hheader,hbefore,hlength,hbytes⟩ := h
  obtain ⟨header',before',rest',hheader',hbefore',hlength',hbytes'⟩ := h'
  rw [hbytes] at hbytes'
  simp only [List.append_assoc] at hbytes'
  have hrest := List.append_cancel_left hbytes'
  obtain ⟨-,hrest⟩ := List.append_inj hrest (by rw [hheader, hheader'])
  have hattributes := List.append_cancel_left hrest
  exact attributes_unique hbefore hbefore' hlength hlength' hattributes

/-- Only a short IPv6 address breaks the parser; a long IPv4 address is cut. -/
theorem stun_responses_are_sound_iff (bytes : List UInt8) (transaction : Vector UInt8 12) :
    (Sound (8 ≤ ·) bytes transaction ↔ ¬ ShortV6 bytes transaction) ∧
      (Sound (· = 8) bytes transaction ↔ ¬ ShortV6 bytes transaction ∧ ¬ LongV4 bytes transaction) := by
  constructor
  · constructor
    · exact fun h hshort => h.1 (panicked_iff.mpr hshort)
    · intro h
      refine ⟨fun hno => h (panicked_iff.mp hno),fun addr haddr => ?_⟩
      obtain ⟨value,hfirst,hunxors,hlength⟩ := parse_ok haddr
      refine ⟨value,hfirst,hunxors,?_⟩
      cases hip : addr.ip with
      | v4 raw =>
        rw [hip] at hlength
        exact hlength.2
      | v6 octets =>
        rw [hip] at hlength
        exact hlength
  · constructor
    · intro h
      refine ⟨fun hshort => h.1 (panicked_iff.mpr hshort),?_⟩
      rintro ⟨value,hfirst,hfamily,hlong⟩
      obtain ⟨raw,port,hread⟩ := parseAddress_v4 transaction hfamily (Nat.le_of_lt hlong)
      obtain ⟨value',hfirst',-,hexact⟩ := h.2 _ ((parse_first hfirst).trans hread)
      rw [first_unique hfirst' hfirst] at hexact
      exact absurd hexact (Nat.ne_of_gt hlong)
    · rintro ⟨hshort,hlong⟩
      refine ⟨fun hno => hshort (panicked_iff.mp hno),fun addr haddr => ?_⟩
      obtain ⟨value,hfirst,hunxors,hlength⟩ := parse_ok haddr
      refine ⟨value,hfirst,hunxors,?_⟩
      cases hip : addr.ip with
      | v4 raw =>
        rw [hip] at hlength
        exact Nat.le_antisymm (Nat.le_of_not_lt fun hno => hlong ⟨value,hfirst,hlength.1,hno⟩) hlength.2
      | v6 octets =>
        rw [hip] at hlength
        exact hlength

def shortAddress : List UInt8 := [0x00,0x02,0x21,0x13,0x21,0x12,0xA4,0x42]

def shortAnswer : List UInt8 :=
  bindingSuccess ++ [0x00,0x0C,0x21,0x12,0xA4,0x42] ++ List.replicate 12 0x07 ++ ([0x00,0x20] ++ [0x00,0x08] ++ shortAddress)

theorem short_answer_panics : ¬ ∀ bytes transaction, Sound (8 ≤ ·) bytes transaction := by
  intro hall
  have hfirst : FirstAddress shortAnswer (Vector.replicate 12 0x07) shortAddress :=
    ⟨[0x00,0x0C,0x21,0x12,0xA4,0x42],[],[],rfl,fun _ hno => absurd hno List.not_mem_nil,by decide,by decide⟩
  have hshort : ShortV6 shortAnswer (Vector.replicate 12 0x07) := ⟨shortAddress,hfirst,rfl,by decide,by decide⟩
  exact (hall shortAnswer (Vector.replicate 12 0x07)).1 (panicked_iff.mpr hshort)

end Messages

end Stun
end Unpeel.Remote
