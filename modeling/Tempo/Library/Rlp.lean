/-
Recursive length prefix encoding: readers that take a value from the front of
a byte string, headers, byte strings and numbers.  What is written is read
back, whatever follows it.
-/
import Tempo.Library.Bytes

namespace Tempo

open List

namespace Rlp

inductive Error where
  | overflow
  | leadingZero
  | inputTooShort
  | nonCanonicalSingleByte
  | nonCanonicalSize
  | unexpectedLength
  | unexpectedString
  | unexpectedList
  | listLengthMismatch (expected got : Nat)
  /-- Refused by the encoding's own library, whose text is not modelled. -/
  | refused
  | custom (msg : String)
  deriving DecidableEq

/-- A reader takes what it needs from the front of a byte string. -/
abbrev Reader (α : Type) := StateT Bytes (Except Error) α

/-- The reader takes `a` and leaves `rest`. -/
def Reads {α : Type} (m : Reader α) (bytes : Bytes) (a : α) (rest : Bytes) : Prop :=
  m bytes = .ok (a, rest)

section Readers

variable {α β : Type} {m : Reader α} {k : α → Reader β} {bytes rest : Bytes}

def fail {α : Type} (e : Error) : Reader α :=
  fun _ => .error e

def ensure (p : Prop) [Decidable p] (e : Error) : Reader Unit :=
  fun bytes => if p then .ok ((), bytes) else .error e

/-- The length of what is left. -/
def remaining : Reader Nat :=
  fun bytes => .ok (bytes.length, bytes)

/-- The next byte, which is not taken. -/
def peek : Reader (Option UInt8) :=
  fun bytes => .ok (bytes.head?, bytes)

def advance (n : Nat) : Reader Bytes :=
  fun bytes => .ok (bytes.take n, bytes.drop n)

theorem Reads.bind {a : α} {b : β} {next : Bytes} (hm : Reads m bytes a next)
    (hk : Reads (k a) next b rest) : Reads (m >>= k) bytes b rest := by
  change (m bytes >>= fun p => k p.1 p.2) = _
  rw [hm]
  exact hk

theorem reads_bind {b : β} :
    Reads (m >>= k) bytes b rest ↔ ∃ a next, Reads m bytes a next ∧ Reads (k a) next b rest := by
  constructor
  · intro h
    change (m bytes >>= fun p => k p.1 p.2) = _ at h
    cases hm : m bytes with
    | error e =>
      rw [hm] at h
      cases h
    | ok p =>
      rw [hm] at h
      exact ⟨p.1, p.2, hm, h⟩
  · rintro ⟨a, next, hm, hk⟩
    exact hm.bind hk

theorem reads_pure {a b : α} : Reads (pure a : Reader α) bytes b rest ↔ a = b ∧ bytes = rest := by
  change Except.ok (a, bytes) = Except.ok (b, rest) ↔ _
  rw [Except.ok.injEq, Prod.mk.injEq]

theorem reads_ensure {p : Prop} [Decidable p] {e : Error} {u : Unit} :
    Reads (ensure p e) bytes u rest ↔ p ∧ bytes = rest := by
  unfold Reads ensure
  split
  all_goals
    rename_i hp
    simp [hp]

theorem Reads.ensure {p : Prop} [Decidable p] (hp : p) {e : Error} :
    Reads (Rlp.ensure p e) bytes () bytes := reads_ensure.mpr ⟨hp, rfl⟩

theorem reads_remaining {n : Nat} :
    Reads remaining bytes n rest ↔ bytes.length = n ∧ bytes = rest := by
  change Except.ok (_, _) = Except.ok (_, _) ↔ _
  rw [Except.ok.injEq, Prod.mk.injEq]

theorem Reads.unique {a b : α} {rest' : Bytes} (h : Reads m bytes a rest)
    (h' : Reads m bytes b rest') : a = b ∧ rest = rest' := by
  unfold Reads at h h'
  rw [h] at h'
  simpa using h'

end Readers

/-! Headers. -/

theorem minBytes_head?_ne (n : Nat) : (minBytes n).head? ≠ some 0 := by
  intro hzero
  cases hbytes : minBytes n with
  | nil =>
    rw [hbytes] at hzero
    cases hzero
  | cons b rest =>
    rw [hbytes] at hzero
    exact minBytes_head_ne b rest hbytes (Option.some.inj hzero)

structure Header where
  list : Bool
  payloadLength : Nat
  deriving DecidableEq

def emptyStringCode : UInt8 := 0x80

/-- Length of a header. -/
def lengthOfLength (payloadLength : Nat) : Nat :=
  if payloadLength < 56 then 1 else 1 + (minBytes payloadLength).length

namespace Header

def encode (header : Header) : Bytes :=
  if header.payloadLength < 56 then
    [UInt8.ofNat ((if header.list then 0xc0 else 0x80) + header.payloadLength)]
  else
    let length := minBytes header.payloadLength
    UInt8.ofNat ((if header.list then 0xf7 else 0xb7) + length.length) :: length

def lengthWithPayload (header : Header) : Nat :=
  lengthOfLength header.payloadLength + header.payloadLength

/-- The payload has to be there. -/
def check (header : Header) (bytes : Bytes) : Except Error (Header × Bytes) :=
  if bytes.length < header.payloadLength then .error .inputTooShort
  else .ok (header, bytes)

/-- A long header: the length itself, without leading zeros. -/
def decodeLong (list : Bool) (lenOfLen : Nat) (bytes : Bytes) : Except Error (Header × Bytes) :=
  if bytes.length < lenOfLen then .error .inputTooShort
  else if (bytes.take lenOfLen).head? = some 0 then .error .leadingZero
  else if ofBeBytes (bytes.take lenOfLen) < 56 then .error .nonCanonicalSize
  else check ⟨list, ofBeBytes (bytes.take lenOfLen)⟩ (bytes.drop lenOfLen)

def decode : Reader Header := fun bytes =>
  match bytes with
  | [] => .error .inputTooShort
  | b :: tail =>
    if b.toNat < 0x80 then check ⟨false, 1⟩ bytes
    else if b.toNat < 0xb8 then
      if b.toNat = 0x81 then
        match tail with
        | [] => .error .inputTooShort
        | c :: _ =>
          if c.toNat < 0x80 then .error .nonCanonicalSingleByte
          else check ⟨false, 1⟩ tail
      else check ⟨false, b.toNat - 0x80⟩ tail
    else if b.toNat < 0xc0 then decodeLong false (b.toNat - 0xb7) tail
    else if b.toNat < 0xf8 then check ⟨true, b.toNat - 0xc0⟩ tail
    else decodeLong true (b.toNat - 0xf7) tail

@[simp] theorem encode_length (header : Header) :
    header.encode.length = lengthOfLength header.payloadLength := by
  unfold encode lengthOfLength
  split
  · rfl
  · rw [length_cons, add_comm]

theorem encode_ne_nil (header : Header) : header.encode ≠ [] := by
  unfold encode
  split
  · exact cons_ne_nil _ _
  · exact cons_ne_nil _ _

theorem check_ok {header : Header} {bytes : Bytes} (h : header.payloadLength ≤ bytes.length) :
    header.check bytes = .ok (header, bytes) := if_neg (Nat.not_lt.mpr h)

theorem decodeLong_ok {list : Bool} {length : Nat} {payload : Bytes}
    (hlong : 56 ≤ length) (hpayload : length ≤ payload.length) :
    decodeLong list (minBytes length).length (minBytes length ++ payload) =
      .ok (⟨list, length⟩, payload) := by
  unfold decodeLong
  rw [take_left, drop_left, if_neg (by simp), if_neg (minBytes_head?_ne length),
    ofBeBytes_minBytes, if_neg (Nat.not_lt.mpr hlong)]
  exact check_ok hpayload

/-- A header is read back; a string of one small byte has none. -/
theorem decode_encode {header : Header} {payload : Bytes} (hsize : header.payloadLength < 2 ^ 64)
    (hpayload : header.payloadLength ≤ payload.length) (hsingle : header = ⟨false, 1⟩ →
      ∀ b ∈ payload.head?, ¬b.toNat < 0x80) :
    Reads decode (header.encode ++ payload) header payload := by
  obtain ⟨list, length⟩ := header
  have hlength : (minBytes length).length ≤ 8 := minBytes_length_le hsize
  have hbyte : ∀ n, n < 256 → (UInt8.ofNat n).toNat = n := by
    intro n hn
    rw [UInt8.toNat_ofNat']
    omega
  unfold encode
  by_cases hshort : length < 56
  · rw [if_pos hshort]
    cases list with
    | true =>
      have hcode := hbyte (0xc0 + length) (by omega)
      simp only [Reads, decode, singleton_append, if_true, hcode]
      rw [if_neg (by omega), if_neg (by omega), if_neg (by omega),
        if_pos (by omega), Nat.add_sub_cancel_left]
      exact check_ok hpayload
    | false =>
      have hcode := hbyte (0x80 + length) (by omega)
      simp only [Reads, decode, singleton_append, if_false, Bool.false_eq_true, hcode]
      rw [if_neg (by omega), if_pos (by omega)]
      by_cases hone : length = 1
      · subst hone
        cases payload with
        | nil => exact absurd hpayload (by decide)
        | cons c rest =>
          dsimp only
          rw [if_neg (hsingle rfl c (by rfl))]
          exact check_ok hpayload
      · rw [if_neg (by omega), Nat.add_sub_cancel_left]
        exact check_ok hpayload
  · rw [if_neg hshort]
    have hpos : 0 < (minBytes length).length := by
      rw [length_pos_iff, Ne, minBytes_eq_nil]
      omega
    cases list with
    | true =>
      have hcode := hbyte (0xf7 + (minBytes length).length) (by omega)
      simp only [Reads, decode, cons_append, if_true, hcode]
      rw [if_neg (by omega), if_neg (by omega), if_neg (by omega),
        if_neg (by omega), Nat.add_sub_cancel_left]
      exact decodeLong_ok (by omega) hpayload
    | false =>
      have hcode := hbyte (0xb7 + (minBytes length).length) (by omega)
      simp only [Reads, decode, cons_append, if_false, Bool.false_eq_true, hcode]
      rw [if_neg (by omega), if_neg (by omega), if_pos (by omega), Nat.add_sub_cancel_left]
      exact decodeLong_ok (by omega) hpayload

end Header

/-- The header of a list and its payload are determined by what follows from
them. -/
theorem Header.separates {header header' : Header} {payload payload' rest rest' : Bytes}
    (hlength : header.payloadLength = payload.length)
    (hlength' : header'.payloadLength = payload'.length)
    (hsize : payload.length < 2 ^ 64) (hsize' : payload'.length < 2 ^ 64)
    (hsingle : header = ⟨false, 1⟩ → ∀ b ∈ payload.head?, ¬b.toNat < 0x80)
    (hsingle' : header' = ⟨false, 1⟩ → ∀ b ∈ payload'.head?, ¬b.toNat < 0x80)
    (h : header.encode ++ (payload ++ rest) = header'.encode ++ (payload' ++ rest')) :
    header = header' ∧ payload = payload' ∧ rest = rest' := by
  have hfront : ∀ {h : Header} {p r : Bytes}, h.payloadLength = p.length →
      (h = ⟨false, 1⟩ → ∀ b ∈ p.head?, ¬b.toNat < 0x80) →
      h = ⟨false, 1⟩ → ∀ b ∈ (p ++ r).head?, ¬b.toNat < 0x80 := by
    intro h p r hp hs heq b hb
    refine hs heq b ?_
    rw [heq] at hp
    cases p with
    | nil => cases hp
    | cons c p => exact hb
  have hread : Reads Header.decode (header.encode ++ (payload ++ rest)) header (payload ++ rest) :=
    Header.decode_encode (hlength ▸ hsize) (by rw [length_append]; omega) (hfront hlength hsingle)
  have hread' : Reads Header.decode (header'.encode ++ (payload' ++ rest'))
      header' (payload' ++ rest') := Header.decode_encode (hlength' ▸ hsize')
      (by rw [length_append]; omega) (hfront hlength' hsingle')
  rw [h] at hread
  obtain ⟨rfl, hpayload⟩ := hread.unique hread'
  exact ⟨rfl, append_inj hpayload (hlength.symm.trans hlength')⟩

theorem Header.separates_list {length length' : Nat}
    {payload payload' rest rest' : Bytes} (hlength : length = payload.length)
    (hlength' : length' = payload'.length)
    (hsize : payload.length < 2 ^ 64) (hsize' : payload'.length < 2 ^ 64)
    (h : Header.encode ⟨true, length⟩ ++ payload ++ rest =
      Header.encode ⟨true, length'⟩ ++ payload' ++ rest') : payload = payload' ∧ rest = rest' := by
  rw [append_assoc, append_assoc] at h
  have hnot : ∀ n, (⟨true, n⟩ : Header) ≠ ⟨false, 1⟩ := fun n heq =>
    nomatch heq
  exact (Header.separates hlength hlength' hsize hsize' (fun heq => absurd heq (hnot length))
    (fun heq => absurd heq (hnot length')) h).2

/-! Byte strings. -/

/-- A byte that stands for itself. -/
def isSingle : Bytes → Bool
  | [b] => decide (b.toNat < 0x80)
  | _ => false

def encodeBytes (bytes : Bytes) : Bytes :=
  if isSingle bytes then bytes
  else Header.encode ⟨false, bytes.length⟩ ++ bytes

def bytesLength (bytes : Bytes) : Nat :=
  if isSingle bytes then bytes.length
  else bytes.length + lengthOfLength bytes.length

def decodeBytes (isList : Bool) : Reader Bytes := do
  let header ← Header.decode
  ensure (header.list = isList) (if isList then .unexpectedString else .unexpectedList)
  advance header.payloadLength

theorem encodeBytes_length (bytes : Bytes) : bytesLength bytes = (encodeBytes bytes).length := by
  unfold bytesLength encodeBytes
  split
  · rfl
  · rw [length_append, Header.encode_length, add_comm]

theorem encodeBytes_ne_nil (bytes : Bytes) : encodeBytes bytes ≠ [] := by
  unfold encodeBytes
  split
  · rename_i hsingle
    rintro rfl
    cases hsingle
  · exact append_ne_nil_of_left_ne_nil (Header.encode_ne_nil _) _

theorem length_lt_of_append {a b : Bytes} {n : Nat}
    (h : (a ++ b).length < n) : a.length < n ∧ b.length < n := by
  rw [length_append] at h
  omega

/-- A payload behind its header. -/
theorem decodeBytes_header {isList : Bool} {payload : Bytes} (hsize : payload.length < 2 ^ 64)
    (hsingle : isList = false → isSingle payload = false) (rest : Bytes) :
    Reads (decodeBytes isList) (Header.encode ⟨isList, payload.length⟩ ++ (payload ++ rest)) payload
      rest := by
  refine (Header.decode_encode hsize (by simp) ?_).bind ((Reads.ensure rfl).bind ?_)
  · intro heq b hb
    obtain ⟨hlist, hone⟩ := Header.mk.inj heq
    obtain ⟨c, rfl⟩ := length_eq_one_iff.mp hone
    obtain rfl : c = b := by simpa using hb
    have hnot := hsingle hlist
    simpa [isSingle] using hnot
  · change Except.ok (_, _) = Except.ok (_, _)
    rw [take_left, drop_left]

theorem decodeBytes_encodeBytes {bytes : Bytes} (hsize : bytes.length < 2 ^ 64) (rest : Bytes) :
    Reads (decodeBytes false) (encodeBytes bytes ++ rest) bytes rest := by
  unfold encodeBytes
  split
  · rename_i hsingle
    match bytes, hsingle with
    | [b], hsingle =>
      have hlt : b.toNat < 0x80 := by simpa [isSingle] using hsingle
      have hheader : Reads Header.decode (b :: rest) ⟨false, 1⟩ (b :: rest) := by
        unfold Reads Header.decode
        dsimp only
        rw [if_pos hlt]
        exact Header.check_ok (by simp)
      exact hheader.bind ((Reads.ensure rfl).bind rfl)
  · rename_i hsingle
    rw [append_assoc]
    exact decodeBytes_header hsize (fun _ => by simpa using hsingle) rest

theorem length_le_encodeBytes (bytes : Bytes) : bytes.length ≤ (encodeBytes bytes).length := by
  unfold encodeBytes
  split
  · exact le_rfl
  · rw [length_append]
    exact Nat.le_add_left _ _

/-! Numbers. -/

def encodeUint (n : Nat) : Bytes :=
  if n = 0 then [emptyStringCode]
  else if n < 0x80 then [UInt8.ofNat n]
  else
    let length := minBytes n
    UInt8.ofNat (0x80 + length.length) :: length

def uintLength (n : Nat) : Nat :=
  if n < 0x80 then 1 else 1 + (minBytes n).length

/-- A number of at most `size` bytes, without leading zeros. -/
def decodeUint (size : Nat) : Reader Nat := do
  let s ← decodeBytes false
  ensure (s.length ≤ size) .overflow
  ensure (s.head? ≠ some 0) .leadingZero
  pure (ofBeBytes s)

theorem minBytes_small {n : Nat} (hpos : n ≠ 0) (hlt : n < 256) : minBytes n = [UInt8.ofNat n] := by
  rw [minBytes, if_neg hpos, show n / 256 = 0 by omega, minBytes_zero,
    nil_append, Nat.mod_eq_of_lt hlt]

/-- A number is written as the string of its bytes. -/
theorem encodeUint_eq {n : Nat} (h : (minBytes n).length < 56) :
    encodeUint n = encodeBytes (minBytes n) := by
  unfold encodeUint encodeBytes
  by_cases hzero : n = 0
  · subst hzero
    rw [minBytes_zero]
    rfl
  · rw [if_neg hzero]
    by_cases hsmall : n < 0x80
    · have hbyte : (UInt8.ofNat n).toNat = n := by
        rw [UInt8.toNat_ofNat']
        omega
      rw [if_pos hsmall, minBytes_small hzero (by omega), if_pos]
      simp [isSingle, hbyte, hsmall]
    · rw [if_neg hsmall, if_neg]
      · unfold Header.encode
        rw [if_pos h]
        rfl
      · intro hsingle
        -- a single byte would be small
        match hbytes : minBytes n, hsingle with
        | [b], hsingle =>
          have hvalue := ofBeBytes_minBytes n
          rw [hbytes] at hvalue
          have hlt : b.toNat < 0x80 := by simpa [isSingle] using hsingle
          simp only [ofBeBytes, foldl_cons, foldl_nil] at hvalue
          omega

theorem encodeUint_length (n : Nat) : uintLength n = (encodeUint n).length := by
  unfold uintLength encodeUint
  by_cases hzero : n = 0
  · rw [if_pos (by omega), if_pos hzero]
    rfl
  · rw [if_neg hzero]
    by_cases hsmall : n < 0x80
    · rw [if_pos hsmall, if_pos hsmall]
      rfl
    · rw [if_neg hsmall, if_neg hsmall, length_cons, add_comm]

theorem encodeUint_ne_nil (n : Nat) : encodeUint n ≠ [] := by
  unfold encodeUint
  split
  · exact cons_ne_nil _ _
  split
  · exact cons_ne_nil _ _
  · exact cons_ne_nil _ _

theorem decodeUint_encodeUint {size n : Nat} (hsize : size < 56)
    (hn : n < 256 ^ size) (rest : Bytes) :
    Reads (decodeUint size) (encodeUint n ++ rest) n rest := by
  have hlength := minBytes_length_le hn
  rw [encodeUint_eq (by omega)]
  refine (decodeBytes_encodeBytes (by omega) rest).bind ((Reads.ensure hlength).bind
      ((Reads.ensure (minBytes_head?_ne n)).bind ?_))
  exact reads_pure.mpr ⟨ofBeBytes_minBytes n, rfl⟩

end Rlp

end Tempo
