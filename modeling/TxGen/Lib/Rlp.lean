import Mathlib

set_option autoImplicit false

/-! # Recursive length prefixes

Strings and lists are written as a header and a payload, short payloads with their length in the
header's one byte and long ones with a length of their own. A byte below `0x80` is its own encoding.
`Codec.Lawful` says what a decoder of headers owes to this format, `reference` is one that does. -/

universe u

namespace Rlp

structure Header where
  list : Bool
  payloadLength : ℕ
deriving DecidableEq

/-! ## Writing -/

/-- The bytes of `n`, none of them a leading zero. -/
def bigEndian (n : ℕ) : List UInt8 :=
  if n = 0 then [] else bigEndian (n / 256) ++ [UInt8.ofNat n]
termination_by n
decreasing_by omega

/-- The first byte of short strings and of short lists -/
def offset (list : Bool) : ℕ := if list then 0xc0 else 0x80

def encodeHeader (list : Bool) (length : ℕ) : List UInt8 :=
  if length < 56 then [UInt8.ofNat (offset list + length)]
  else UInt8.ofNat (offset list + 55 + (bigEndian length).length) :: bigEndian length

/-- A string of one byte that is its own encoding -/
def isOwnEncoding (payload : List UInt8) : Bool :=
  match payload with
  | [b] => b.toNat < 0x80
  | _ => false

def encodeString (payload : List UInt8) : List UInt8 :=
  if isOwnEncoding payload then payload else encodeHeader false payload.length ++ payload

def encodeList (payload : List UInt8) : List UInt8 := encodeHeader true payload.length ++ payload

/-! ## Reading -/

/-- A decoder of headers, and of headers together with their payload. Both return what they read and
    the input after it. -/
structure Codec (ε : Type u) where
  decode : List UInt8 → Except ε (Header × List UInt8)
  decodeBytes : List UInt8 → Bool → Except ε (List UInt8 × List UInt8)

/-- The decoder accepts what is written, takes at least a byte with each item, and never promises more
    payload than there is. Lengths are 64 bits wide. -/
structure Codec.Lawful {ε : Type u} (codec : Codec ε) : Prop where
  list : ∀ payload rest : List UInt8, payload.length < 2 ^ 64 →
    codec.decode (encodeList payload ++ rest) = .ok (⟨true, payload.length⟩, payload ++ rest)
  string : ∀ payload rest : List UInt8, payload.length < 2 ^ 64 → isOwnEncoding payload = false →
    codec.decode (encodeString payload ++ rest) = .ok (⟨false, payload.length⟩, payload ++ rest)
  byte : ∀ payload rest : List UInt8, isOwnEncoding payload = true →
    codec.decode (payload ++ rest) = .ok (⟨false, 1⟩, payload ++ rest)
  bounded : ∀ (buf : List UInt8) (header : Header) (rest : List UInt8),
    codec.decode buf = .ok (header, rest) → header.payloadLength ≤ rest.length
  advances : ∀ (buf : List UInt8) (header : Header) (rest : List UInt8),
    codec.decode buf = .ok (header, rest) →
      rest.length ≤ buf.length ∧ rest.length < buf.length + header.payloadLength
  decodeBytes : ∀ (buf : List UInt8) (header : Header) (rest : List UInt8),
    codec.decode buf = .ok (header, rest) → codec.decodeBytes buf header.list
      = .ok (rest.take header.payloadLength, rest.drop header.payloadLength)

namespace Codec.Lawful

variable {ε : Type u} {codec : Codec ε}

/-- A written list is read back. -/
theorem decodeBytes_list (h : codec.Lawful) {payload : List UInt8} (hlength : payload.length < 2 ^ 64)
    (rest : List UInt8) :
    codec.decodeBytes (encodeList payload ++ rest) true = .ok (payload, rest) := by
  have hdecode := h.decodeBytes _ _ _ (h.list payload rest hlength)
  simpa using hdecode

/-- A written string has its bytes after the header that is read. -/
theorem decode_string (h : codec.Lawful) {payload : List UInt8} (hlength : payload.length < 2 ^ 64)
    (rest : List UInt8) :
    codec.decode (encodeString payload ++ rest) = .ok (⟨false, payload.length⟩, payload ++ rest) := by
  cases hown : isOwnEncoding payload with
  | false => exact h.string payload rest hlength hown
  | true =>
      have hone : payload.length = 1 := by
        unfold isOwnEncoding at hown
        split at hown
        · rfl
        · cases hown
      rw [encodeString, if_pos hown, hone]
      exact h.byte payload rest hown

end Codec.Lawful

/-! ## A decoder -/

def ofBigEndian (bytes : List UInt8) : ℕ := bytes.foldl (fun n b => n * 256 + b.toNat) 0

inductive Error
  | inputTooShort
  | unexpectedKind
  | nonCanonical
deriving DecidableEq

/-- The payload must be there. -/
def checked (header : Header) (rest : List UInt8) : Except Error (Header × List UInt8) :=
  if header.payloadLength ≤ rest.length then .ok (header, rest) else .error .inputTooShort

/-- A header with a length of `size` bytes -/
def decodeLong (list : Bool) (size : ℕ) (rest : List UInt8) : Except Error (Header × List UInt8) :=
  if rest.length < size then .error .inputTooShort
  else if ofBigEndian (rest.take size) < 56 ∨ rest.head? = some 0 then .error .nonCanonical
  else checked ⟨list, ofBigEndian (rest.take size)⟩ (rest.drop size)

def decodeHeader : List UInt8 → Except Error (Header × List UInt8)
  | [] => .error .inputTooShort
  | b :: rest =>
    if b.toNat < 0x80 then .ok (⟨false, 1⟩, b :: rest)
    else if b.toNat < 0xb8 then
      if b.toNat = 0x81 ∧ isOwnEncoding (rest.take 1) then .error .nonCanonical
      else checked ⟨false, b.toNat - 0x80⟩ rest
    else if b.toNat < 0xc0 then decodeLong false (b.toNat - 0xb7) rest
    else if b.toNat < 0xf8 then checked ⟨true, b.toNat - 0xc0⟩ rest
    else decodeLong true (b.toNat - 0xf7) rest

def reference : Codec Error where
  decode := decodeHeader
  decodeBytes buf list :=
    match decodeHeader buf with
    | .error e => .error e
    | .ok (header, rest) =>
      if header.list = list then .ok (rest.take header.payloadLength, rest.drop header.payloadLength)
      else .error .unexpectedKind

theorem bigEndian_zero : bigEndian 0 = [] := by
  rw [bigEndian, if_pos rfl]

theorem bigEndian_pos {n : ℕ} (h : n ≠ 0) : bigEndian n = bigEndian (n / 256) ++ [UInt8.ofNat n] := by
  rw [bigEndian, if_neg h]

theorem ofBigEndian_bigEndian (n : ℕ) : ofBigEndian (bigEndian n) = n := by
  induction n using Nat.strongRecOn with
  | ind n ih =>
      by_cases hn : n = 0
      · rw [hn, bigEndian_zero]
        rfl
      · have hdiv := ih (n / 256) (by omega)
        rw [ofBigEndian] at hdiv
        rw [bigEndian_pos hn, ofBigEndian, List.foldl_append, hdiv]
        simp
        omega

theorem length_bigEndian_le {k n : ℕ} (h : n < 256 ^ k) : (bigEndian n).length ≤ k := by
  induction k generalizing n with
  | zero =>
      obtain rfl : n = 0 := by omega
      simp [bigEndian_zero]
  | succ k ih =>
      by_cases hn : n = 0
      · simp [hn, bigEndian_zero]
      · rw [Nat.pow_succ] at h
        have := ih (n := n / 256) (by omega)
        rw [bigEndian_pos hn, List.length_append, List.length_singleton]
        omega

theorem length_bigEndian_pos {n : ℕ} (h : n ≠ 0) : 0 < (bigEndian n).length := by
  rw [bigEndian_pos h]
  simp

/-- No leading zero is written. -/
theorem head?_bigEndian (n : ℕ) : (bigEndian n).head? ≠ some 0 := by
  induction n using Nat.strongRecOn with
  | ind n ih =>
      by_cases hn : n = 0
      · simp [hn, bigEndian_zero]
      · rw [bigEndian_pos hn]
        by_cases hdiv : n / 256 = 0
        · rw [hdiv, bigEndian_zero]
          have hlow : n < 256 := by omega
          intro hzero
          have := congrArg UInt8.toNat (Option.some.inj hzero)
          simp at this
          omega
        · obtain ⟨b, bs, hbs⟩ := List.exists_cons_of_length_pos (length_bigEndian_pos hdiv)
          have := ih (n / 256) (by omega)
          rw [hbs] at this ⊢
          simpa using this

theorem checked_ok {header : Header} {rest : List UInt8} (h : header.payloadLength ≤ rest.length) :
    checked header rest = .ok (header, rest) := if_pos h

theorem decodeLong_bigEndian (list : Bool) {payload : List UInt8} (hlong : 56 ≤ payload.length)
    (rest : List UInt8) :
    decodeLong list (bigEndian payload.length).length (bigEndian payload.length ++ (payload ++ rest))
      = .ok (⟨list, payload.length⟩, payload ++ rest) := by
  have hpos := length_bigEndian_pos (n := payload.length) (by omega)
  obtain ⟨b, bs, hbs⟩ := List.exists_cons_of_length_pos hpos
  have hhead := head?_bigEndian payload.length
  rw [decodeLong, if_neg (by simp), List.take_left', List.drop_left', ofBigEndian_bigEndian, if_neg,
    checked_ok (by simp)]
  · rintro (hshort | hzero)
    · omega
    · rw [hbs] at hhead hzero
      exact hhead (by simpa using hzero)
  · rfl
  · rfl

/-- What is written with a header is read back with the header. -/
theorem decodeHeader_encodeHeader (list : Bool) {payload : List UInt8}
    (hlength : payload.length < 2 ^ 64) (hown : list = false → isOwnEncoding payload = false)
    (rest : List UInt8) :
    decodeHeader (encodeHeader list payload.length ++ payload ++ rest)
      = .ok (⟨list, payload.length⟩, payload ++ rest) := by
  have hsize := length_bigEndian_le (k := 8) (n := payload.length) (by omega)
  rw [encodeHeader]
  split
  · rename_i hshort
    cases list with
    | false =>
        have hbyte : (UInt8.ofNat (offset false + payload.length)).toNat = 0x80 + payload.length := by
          simp [offset]
          omega
        have hcanonical : ¬ (0x80 + payload.length = 0x81 ∧
            isOwnEncoding ((payload ++ rest).take 1) = true) := by
          rintro ⟨hone, hbad⟩
          rw [List.take_left' (by omega), hown rfl] at hbad
          cases hbad
        simp only [List.cons_append, List.nil_append, decodeHeader, hbyte]
        rw [if_neg (by omega), if_pos (by omega), if_neg hcanonical, Nat.add_sub_cancel_left,
          checked_ok (by simp)]
    | true =>
        have hbyte : (UInt8.ofNat (offset true + payload.length)).toNat = 0xc0 + payload.length := by
          simp [offset]
          omega
        simp only [List.cons_append, List.nil_append, decodeHeader, hbyte]
        rw [if_neg (by omega), if_neg (by omega), if_neg (by omega), if_pos (by omega),
          Nat.add_sub_cancel_left, checked_ok (by simp)]
  · rename_i hlong
    have hpos := length_bigEndian_pos (n := payload.length) (by omega)
    cases list with
    | false =>
        have hbyte : (UInt8.ofNat (offset false + 55 + (bigEndian payload.length).length)).toNat
            = 0xb7 + (bigEndian payload.length).length := by
          simp [offset]
          omega
        simp only [List.cons_append, decodeHeader, hbyte, List.append_assoc]
        rw [if_neg (by omega), if_neg (by omega), if_pos (by omega), Nat.add_sub_cancel_left,
          decodeLong_bigEndian false (by omega)]
    | true =>
        have hbyte : (UInt8.ofNat (offset true + 55 + (bigEndian payload.length).length)).toNat
            = 0xf7 + (bigEndian payload.length).length := by
          simp [offset]
          omega
        simp only [List.cons_append, decodeHeader, hbyte, List.append_assoc]
        rw [if_neg (by omega), if_neg (by omega), if_neg (by omega), if_neg (by omega),
          Nat.add_sub_cancel_left, decodeLong_bigEndian true (by omega)]

theorem checked_eq_ok {header header' : Header} {rest rest' : List UInt8}
    (h : checked header rest = .ok (header', rest')) :
    header' = header ∧ rest' = rest ∧ header.payloadLength ≤ rest.length := by
  unfold checked at h
  split at h
  · rename_i hle
    obtain ⟨rfl, rfl⟩ := by simpa using h
    exact ⟨rfl, rfl, hle⟩
  · cases h

theorem decodeLong_eq_ok {list : Bool} {size : ℕ} {header : Header} {rest rest' : List UInt8}
    (h : decodeLong list size rest = .ok (header, rest')) :
    header.payloadLength ≤ rest'.length ∧ rest'.length ≤ rest.length := by
  unfold decodeLong at h
  split at h
  · cases h
  · split at h
    · cases h
    · obtain ⟨rfl, rfl, hle⟩ := checked_eq_ok h
      exact ⟨hle, by simp⟩

/-- What is read is no longer than the input. -/
theorem decodeHeader_eq_ok {buf rest : List UInt8} {header : Header}
    (h : decodeHeader buf = .ok (header, rest)) : header.payloadLength ≤ rest.length ∧
      rest.length ≤ buf.length ∧ rest.length < buf.length + header.payloadLength := by
  cases buf with
  | nil => cases h
  | cons b buf =>
      rw [decodeHeader] at h
      split at h
      · simp only [Except.ok.injEq, Prod.mk.injEq] at h
        obtain ⟨rfl, rfl⟩ := h
        exact ⟨by simp, Nat.le_refl _, by simp⟩
      · split at h
        · split at h
          · cases h
          · obtain ⟨rfl, rfl, hle⟩ := checked_eq_ok h
            refine ⟨hle, ?_⟩
            simp only [List.length_cons]
            omega
        · split at h
          · obtain ⟨hle, hrest⟩ := decodeLong_eq_ok h
            simp only [List.length_cons]
            omega
          · split at h
            · obtain ⟨rfl, rfl, hle⟩ := checked_eq_ok h
              refine ⟨hle, ?_⟩
              simp only [List.length_cons]
              omega
            · obtain ⟨hle, hrest⟩ := decodeLong_eq_ok h
              simp only [List.length_cons]
              omega

theorem reference_lawful : reference.Lawful where
  list payload rest hlength := decodeHeader_encodeHeader true hlength nofun rest
  string payload rest hlength hown := by
    rw [encodeString, if_neg (by simp [hown])]
    exact decodeHeader_encodeHeader false hlength (fun _ => hown) rest
  byte payload rest hown := by
    unfold isOwnEncoding at hown
    split at hown
    · rename_i b
      have hlow : b.toNat < 0x80 := by simpa using hown
      simp [reference, decodeHeader, hlow]
    · cases hown
  bounded _ _ _ h := (decodeHeader_eq_ok h).1
  advances _ _ _ h := (decodeHeader_eq_ok h).2
  decodeBytes buf header rest h := by
    have hdecode : decodeHeader buf = .ok (header, rest) := h
    simp [reference, hdecode]

end Rlp
