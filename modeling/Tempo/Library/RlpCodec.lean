/-
Codecs for recursive length prefix encoding.  A codec writes a value, announces
the length of what it writes, and reads a value back.  Lists, records and
records with trailing optional fields inherit two laws from their fields:
reading back what was written, and that what is written determines the value
and where it ends.
-/
import Tempo.Library.Rlp

namespace Tempo

open List

variable {α β : Type}

namespace Rlp

structure Codec (α : Type) where
  encode : α → Bytes
  length : α → Nat
  decode : Reader α

namespace Codec

/-- The announced length is that of what is written. -/
def Measured (c : Codec α) : Prop :=
  ∀ a, c.length a = (c.encode a).length

/-- A value is read back, whatever follows. -/
def Returns (c : Codec α) (a : α) : Prop :=
  (c.encode a).length < 2 ^ 64 → ∀ rest, Reads c.decode (c.encode a ++ rest) a rest

/-- What is written determines the value and where it ends. -/
def Separates (c : Codec α) : Prop :=
  ∀ ⦃a b : α⦄ ⦃rest rest' : Bytes⦄, (c.encode a).length < 2 ^ 64 → (c.encode b).length < 2 ^ 64 →
    c.encode a ++ rest = c.encode b ++ rest' → a = b ∧ rest = rest'

/-- Something is written. -/
def Writes (c : Codec α) : Prop :=
  ∀ a, c.encode a ≠ []

variable {c : Codec α}

theorem separates_of_returns (h : ∀ a, c.Returns a) : c.Separates := by
  intro a b rest rest' ha hb heq
  have hread := h a ha rest
  rw [heq] at hread
  exact hread.unique (h b hb rest')

theorem Separates.injective (h : c.Separates) {a b : α}
    (ha : (c.encode a).length < 2 ^ 64) (heq : c.encode a = c.encode b) : a = b := by
  have happend : c.encode a ++ [] = c.encode b ++ [] := by rw [heq]
  exact (h ha (heq ▸ ha) happend).1

/-! Byte strings and words. -/

def bytes : Codec Bytes where
  encode := encodeBytes
  length := bytesLength
  decode := decodeBytes false

theorem bytes_returns (s : Bytes) : bytes.Returns s := fun hsize rest =>
  decodeBytes_encodeBytes (lt_of_le_of_lt (length_le_encodeBytes s) hsize) rest

/-- A value of fixed size. -/
def fixed (size : Nat) (toBytes : α → Bytes) (fromSlice : Bytes → α) : Codec α where
  encode a := encodeBytes (toBytes a)
  length a := bytesLength (toBytes a)
  decode := do
    let s ← decodeBytes false
    ensure (s.length = size) .unexpectedLength
    pure (fromSlice s)

section Fixed

variable {size : Nat} {toBytes : α → Bytes} {fromSlice : Bytes → α}

theorem fixed_measured : (fixed size toBytes fromSlice).Measured := fun a =>
  encodeBytes_length (toBytes a)

theorem fixed_writes : (fixed size toBytes fromSlice).Writes := fun a =>
  encodeBytes_ne_nil (toBytes a)

theorem fixed_returns (hsize : ∀ a, (toBytes a).length = size)
    (hback : ∀ a, fromSlice (toBytes a) = a) (a : α) :
    (fixed size toBytes fromSlice).Returns a := by
  intro hlt rest
  have hshort := lt_of_le_of_lt (length_le_encodeBytes (toBytes a)) hlt
  refine (decodeBytes_encodeBytes hshort rest).bind ((Reads.ensure (hsize a)).bind ?_)
  exact reads_pure.mpr ⟨hback a, rfl⟩

end Fixed

/-- An unsigned word of `8 * size` bits. -/
def uint (size : Nat) : Codec (BitVec (8 * size)) where
  encode x := encodeUint x.toNat
  length x := uintLength x.toNat
  decode := do
    let n ← decodeUint size
    pure (BitVec.ofNat _ n)

theorem uint_measured (size : Nat) : (uint size).Measured := fun x =>
  encodeUint_length x.toNat

theorem uint_writes (size : Nat) : (uint size).Writes := fun x =>
  encodeUint_ne_nil x.toNat

theorem uint_returns {size : Nat} (hsize : size < 56)
    (x : BitVec (8 * size)) : (uint size).Returns x := by
  intro _ rest
  have hlt : x.toNat < 256 ^ size := by
    have hx := x.isLt
    rwa [Nat.pow_mul] at hx
  refine (decodeUint_encodeUint hsize hlt rest).bind ?_
  refine reads_pure.mpr ⟨?_, rfl⟩
  rw [BitVec.ofNat_toNat, BitVec.setWidth_eq]

/-- A value written as another one, which it is read back from. -/
def via (c : Codec β) (into : α → β) (back : β → Except Error α) : Codec α where
  encode a := c.encode (into a)
  length a := c.length (into a)
  decode := do
    let b ← c.decode
    fun bytes => (back b).map fun a => (a, bytes)

section Via

variable {c : Codec β} {into : α → β} {back : β → Except Error α}

theorem Measured.via (h : c.Measured) : (c.via into back).Measured := fun a => h (into a)

theorem Writes.via (h : c.Writes) : (c.via into back).Writes := fun a => h (into a)

theorem Returns.via {a : α} (h : c.Returns (into a))
    (hback : back (into a) = .ok a) : (c.via into back).Returns a := by
  intro hsize rest
  refine (h hsize rest).bind ?_
  rw [hback]
  rfl

end Via

/-! Fields in a row. -/

/-- The first field is read, then the others. -/
theorem Returns.field {γ : Type} {a : α} {k : α → Reader γ} {more rest : Bytes}
    {b : γ} (h : c.Returns a) (hsize : (c.encode a ++ more).length < 2 ^ 64)
    (hk : more.length < 2 ^ 64 → Reads (k a) (more ++ rest) b rest) :
    Reads (c.decode >>= k) ((c.encode a ++ more) ++ rest) b rest := by
  rw [append_assoc]
  exact (h (length_lt_of_append hsize).1 _).bind (hk (length_lt_of_append hsize).2)

/-- The first field is determined, then the others. -/
theorem Separates.field {a a' : α} {more more' : Bytes} (h : c.Separates)
    (hsize : (c.encode a ++ more).length < 2 ^ 64)
    (heq : c.encode a ++ more = c.encode a' ++ more') :
    a = a' ∧ more.length < 2 ^ 64 ∧ more = more' := by
  have hsize' := hsize
  rw [heq] at hsize'
  obtain ⟨hfirst, hrest⟩ := h (length_lt_of_append hsize).1 (length_lt_of_append hsize').1 heq
  exact ⟨hfirst, (length_lt_of_append hsize).2, hrest⟩

/-! Lists. -/

def decodeAll (c : Codec α) : Nat → Bytes → Except Error (List α)
  | _, [] => .ok []
  | 0, _ => .error .inputTooShort
  | fuel + 1, bytes => do
    let (a, rest) ← c.decode bytes
    let more ← decodeAll c fuel rest
    pure (a :: more)

def list (c : Codec α) : Codec (List α) where
  encode l := Header.encode ⟨true, (l.map c.length).sum⟩ ++ (l.map c.encode).flatten
  length l := lengthOfLength (l.map c.length).sum + (l.map c.length).sum
  decode := do
    let s ← decodeBytes true
    fun bytes => (c.decodeAll s.length s).map fun l => (l, bytes)

section List

variable {c : Codec α} {l : List α}

theorem Measured.flatten (h : c.Measured) (l : List α) :
    (l.map c.length).sum = ((l.map c.encode).flatten).length := by
  induction l with
  | nil => rfl
  | cons a l ih =>
    rw [map_cons, sum_cons, map_cons, flatten_cons, length_append, ih, h a]

theorem Measured.list (h : c.Measured) : c.list.Measured := by
  intro l
  change lengthOfLength _ + _ = (_ ++ _ : Bytes).length
  rw [length_append, Header.encode_length, ← h.flatten]

theorem list_writes : c.list.Writes := fun _ =>
  append_ne_nil_of_left_ne_nil (Header.encode_ne_nil _) _

theorem decodeAll_flatten (hwrites : c.Writes) (hreturns : ∀ a ∈ l, c.Returns a)
    (hsize : ((l.map c.encode).flatten).length < 2 ^ 64) {fuel : Nat}
    (hfuel : ((l.map c.encode).flatten).length ≤ fuel) :
    c.decodeAll fuel (l.map c.encode).flatten = .ok l := by
  induction l generalizing fuel with
  | nil =>
    rw [map_nil, flatten_nil, decodeAll.eq_def]
  | cons a l ih =>
    rw [map_cons, flatten_cons] at hsize hfuel ⊢
    obtain ⟨ha, hl⟩ := length_lt_of_append hsize
    have hpos := length_pos_iff.mpr (hwrites a)
    rw [length_append] at hfuel
    have hread := hreturns a mem_cons_self ha (l.map c.encode).flatten
    cases fuel with
    | zero => omega
    | succ fuel =>
      have hrest : c.decodeAll fuel (l.map c.encode).flatten = .ok l :=
        ih (fun b hb => hreturns b (mem_cons_of_mem a hb)) hl (by omega)
      have hstep : c.decodeAll (fuel + 1) (c.encode a ++ (l.map c.encode).flatten) = (do
            let (b, rest) ← c.decode (c.encode a ++ (l.map c.encode).flatten)
            let more ← c.decodeAll fuel rest
            pure (b :: more)) := by
        cases hbytes : c.encode a ++ (l.map c.encode).flatten with
        | nil => exact absurd (append_eq_nil_iff.mp hbytes).1 (hwrites a)
        | cons b tail => rfl
      rw [hstep, show c.decode _ = _ from hread]
      change (c.decodeAll fuel _ >>= _) = _
      rw [hrest]
      rfl

theorem Returns.list (hmeasured : c.Measured) (hwrites : c.Writes)
    (hreturns : ∀ a ∈ l, c.Returns a) : c.list.Returns l := by
  intro hsize rest
  have hpayload := (length_lt_of_append hsize).2
  change Reads c.list.decode ((Header.encode ⟨true, _⟩ ++ (l.map c.encode).flatten) ++ rest) l rest
  rw [hmeasured.flatten, append_assoc]
  have hlist := decodeBytes_header hpayload (fun heq : true = false => nomatch heq) rest
  refine hlist.bind ?_
  rw [decodeAll_flatten hwrites hreturns hpayload le_rfl]
  rfl

theorem Separates.flatten (h : c.Separates) (hwrites : c.Writes) {l' : List α}
    (hsize : ((l.map c.encode).flatten).length < 2 ^ 64)
    (heq : (l.map c.encode).flatten = (l'.map c.encode).flatten) : l = l' := by
  induction l generalizing l' with
  | nil =>
    cases l' with
    | nil => rfl
    | cons b l' =>
      exact absurd (append_eq_nil_iff.mp heq.symm).1 (hwrites b)
  | cons a l ih =>
    cases l' with
    | nil =>
      exact absurd (append_eq_nil_iff.mp heq).1 (hwrites a)
    | cons b l' =>
      obtain ⟨rfl, hmore, hrest⟩ := h.field hsize heq
      rw [ih hmore hrest]

theorem Separates.list (h : c.Separates) (hmeasured : c.Measured)
    (hwrites : c.Writes) : c.list.Separates := by
  intro l l' rest rest' hsize hsize' heq
  have hpayload := (length_lt_of_append hsize).2
  have hpayload' := (length_lt_of_append hsize').2
  obtain ⟨hsame, hrest⟩ := Header.separates_list (hmeasured.flatten l)
    (hmeasured.flatten l') hpayload hpayload' heq
  exact ⟨h.flatten hwrites hpayload hsame, hrest⟩

end List

/-! Records. -/

/-- Fields behind a list header.  The fields are read from the whole input;
that they end with the payload is checked afterwards. -/
def record (fieldsLength : α → Nat) (encodeFields : α → Bytes)
    (decodeFields : Nat → Nat → Reader α) (mismatch : Nat → Nat → Error) : Codec α where
  encode a := Header.encode ⟨true, fieldsLength a⟩ ++ encodeFields a
  length a := lengthOfLength (fieldsLength a) + fieldsLength a
  decode := do
    let header ← Header.decode
    ensure (header.list = true) .unexpectedString
    let startedLen ← remaining
    let this ← decodeFields startedLen header.payloadLength
    let left ← remaining
    ensure (startedLen - left = header.payloadLength)
      (mismatch header.payloadLength (startedLen - left))
    pure this

section Record

variable {fieldsLength : α → Nat} {encodeFields : α → Bytes}
  {decodeFields : Nat → Nat → Reader α} {mismatch : Nat → Nat → Error}

theorem record_measured (h : ∀ a, fieldsLength a = (encodeFields a).length) :
    (record fieldsLength encodeFields decodeFields mismatch).Measured := by
  intro a
  change lengthOfLength _ + _ = (_ ++ _ : Bytes).length
  rw [length_append, Header.encode_length, ← h a]

theorem record_writes : (record fieldsLength encodeFields decodeFields mismatch).Writes := fun _ =>
  append_ne_nil_of_left_ne_nil (Header.encode_ne_nil _) _

theorem record_returns {a : α} (h : fieldsLength a = (encodeFields a).length)
    (hfields : (encodeFields a).length < 2 ^ 64 → ∀ rest,
      Reads (decodeFields ((encodeFields a) ++ rest).length
        (encodeFields a).length) (encodeFields a ++ rest) a rest) :
    (record fieldsLength encodeFields decodeFields mismatch).Returns a := by
  intro hsize rest
  have hpayload := (length_lt_of_append hsize).2
  change Reads _ ((Header.encode ⟨true, fieldsLength a⟩ ++ _) ++ _) _ _
  rw [append_assoc, h]
  have hheader : Reads Header.decode
      (Header.encode ⟨true, (encodeFields a).length⟩ ++ (encodeFields a ++ rest))
      ⟨true, (encodeFields a).length⟩ (encodeFields a ++ rest) :=
    Header.decode_encode hpayload (by simp) fun heq => nomatch heq
  refine hheader.bind ((Reads.ensure rfl).bind ((reads_remaining.mpr ⟨rfl, rfl⟩).bind ?_))
  refine (hfields hpayload rest).bind ((reads_remaining.mpr ⟨rfl, rfl⟩).bind ((Reads.ensure ?_).bind
      (reads_pure.mpr ⟨rfl, rfl⟩)))
  rw [length_append, Nat.add_sub_cancel]

theorem record_separates (h : ∀ a, fieldsLength a = (encodeFields a).length)
    (hfields : ∀ ⦃a b : α⦄, (encodeFields a).length < 2 ^ 64 →
      encodeFields a = encodeFields b → a = b) :
    (record fieldsLength encodeFields decodeFields mismatch).Separates := by
  intro a b rest rest' ha hb heq
  have hpayload := (length_lt_of_append ha).2
  have hpayload' := (length_lt_of_append hb).2
  obtain ⟨hsame, hrest⟩ := Header.separates_list (h a) (h b) hpayload hpayload' heq
  exact ⟨hfields hpayload hsame, hrest⟩

/-- What was read had its fields read. -/
theorem record_reads {bytes rest : Bytes} {a : α}
    (h : Reads (record fieldsLength encodeFields decodeFields mismatch).decode bytes a rest) :
    ∃ startedLen payloadLength bytes' rest',
      Reads (decodeFields startedLen payloadLength) bytes' a rest' := by
  obtain ⟨header, b1, -, h1⟩ := reads_bind.mp h
  obtain ⟨-, b2, -, h2⟩ := reads_bind.mp h1
  obtain ⟨startedLen, b3, -, h3⟩ := reads_bind.mp h2
  obtain ⟨this, b4, hfields, h4⟩ := reads_bind.mp h3
  obtain ⟨left, b5, -, h5⟩ := reads_bind.mp h4
  obtain ⟨-, b6, -, h6⟩ := reads_bind.mp h5
  obtain ⟨rfl, -⟩ := reads_pure.mp h6
  exact ⟨_, _, _, _, hfields⟩

end Record

end Codec

/-! Trailing optional fields. -/

/-- A field that may be left out: nothing if the payload has ended, or a
placeholder, or a value. -/
def trailingField {α : Type} (c : Codec α) (startedLen payloadLength : Nat) :
    Reader (Option (Option α)) := do
  let left ← remaining
  if startedLen - left < payloadLength then do
    let first ← peek
    if first = some emptyStringCode then do
      let _ ← advance 1
      pure (some none)
    else do
      let a ← c.decode
      pure (some (some a))
  else pure none

/-- A sequence of optional fields at the end of a record.  A field that is
absent is only written, as a placeholder, if a later one is present; the reader
also returns whether the last field it saw had a value. -/
structure Trail (α : Type) where
  isSome : α → Bool
  encode : α → Bytes
  length : α → Nat
  decode : Nat → Nat → Reader (α × Option Bool)

namespace Trail

variable {header : Header}

def nil : Trail Unit where
  isSome _ := false
  encode _ := []
  length _ := 0
  decode _ _ := pure ((), none)

def cons (c : Codec β) (t : Trail α) : Trail (Option β × α) where
  isSome p := p.1.isSome || t.isSome p.2
  encode p :=
    match p.1 with
    | some b => c.encode b ++ t.encode p.2
    | none => if t.isSome p.2 then emptyStringCode :: t.encode p.2 else []
  length p :=
    match p.1 with
    | some b => c.length b + t.length p.2
    | none => if t.isSome p.2 then 1 + t.length p.2 else 0
  decode startedLen payloadLength := do
    let field ← trailingField c startedLen payloadLength
    let (a, last) ← t.decode startedLen payloadLength
    pure ((field.join, a), last.or (field.map Option.isSome))

/-- A value is not written like a placeholder. -/
def Marked (c : Codec β) : Prop :=
  ∀ b, (c.encode b).length < 2 ^ 64 → (c.encode b).head? ≠ some emptyStringCode

theorem head?_append {front : Bytes} (h : front ≠ []) (rest : Bytes) :
    (front ++ rest).head? = front.head? := by
  cases front with
  | nil => exact absurd rfl h
  | cons b front => rfl

/-- The first byte tells a list from a string, and the empty string from the
others. -/
theorem header_head (hsize : header.payloadLength < 2 ^ 64) :
    ∃ b, header.encode.head? = some b ∧ (0xc0 ≤ b.toNat ↔ header.list = true) ∧
      (b = emptyStringCode ↔ header = ⟨false, 0⟩) := by
  obtain ⟨list, length⟩ := header
  have hlength : (minBytes length).length ≤ 8 := minBytes_length_le hsize
  unfold Header.encode
  dsimp only
  split
  all_goals
    refine ⟨_, rfl, ?_⟩
    rw [← UInt8.toNat_inj, UInt8.toNat_ofNat', show emptyStringCode.toNat = 0x80 from rfl]
    cases list <;> simp <;> omega

theorem header_marked (hsize : header.payloadLength < 2 ^ 64)
    (hne : header ≠ ⟨false, 0⟩) : header.encode.head? ≠ some emptyStringCode := by
  obtain ⟨b, hb, -, hempty⟩ := header_head hsize
  rw [hb, Ne, Option.some_inj, hempty]
  exact hne

theorem record_head {fieldsLength : β → Nat} {encodeFields : β → Bytes}
    {decodeFields : Nat → Nat → Reader β} {mismatch : Nat → Nat → Error}
    {b : β} (h : fieldsLength b = (encodeFields b).length)
    (hsize : ((Codec.record fieldsLength encodeFields decodeFields
      mismatch).encode b).length < 2 ^ 64) :
    ∃ first, ((Codec.record fieldsLength encodeFields decodeFields
      mismatch).encode b).head? = some first ∧ 0xc0 ≤ first.toNat := by
  have hpayload := (length_lt_of_append hsize).2
  obtain ⟨first, hfirst, hlist, -⟩ := @header_head ⟨true, fieldsLength b⟩ (h.trans_lt hpayload)
  refine ⟨first, ?_, hlist.mpr rfl⟩
  rw [← hfirst]
  exact head?_append (Header.encode_ne_nil _) _

theorem encodeBytes_marked {bytes : Bytes} (hne : bytes ≠ []) (hsize : bytes.length < 2 ^ 64) :
    (encodeBytes bytes).head? ≠ some emptyStringCode := by
  unfold encodeBytes
  split
  · rename_i hsingle
    match bytes, hsingle with
    | [b], hsingle =>
      have hlt : b.toNat < 0x80 := by simpa [isSingle] using hsingle
      rw [head?_cons, Ne, Option.some_inj]
      rintro rfl
      exact absurd hlt (by decide)
  · rw [head?_append (Header.encode_ne_nil _)]
    refine header_marked hsize fun heq => hne ?_
    exact length_eq_zero_iff.mp (Header.mk.inj heq).2

theorem list_marked {c : Codec β} (h : c.Measured) : Marked c.list := by
  intro l hsize
  have hpayload := (length_lt_of_append hsize).2
  rw [← h.flatten] at hpayload
  change (Header.encode ⟨true, _⟩ ++ _ : Bytes).head? ≠ _
  rw [head?_append (Header.encode_ne_nil _)]
  exact header_marked hpayload fun heq => nomatch heq

theorem fixed_marked {size : Nat} {toBytes : β → Bytes} {fromSlice : Bytes → β}
    (hne : ∀ b, toBytes b ≠ []) : Marked (Codec.fixed size toBytes fromSlice) := fun b hsize =>
  encodeBytes_marked (hne b) (lt_of_le_of_lt (length_le_encodeBytes (toBytes b)) hsize)

structure Lawful (t : Trail α) : Prop where
  measured : ∀ a, t.length a = (t.encode a).length
  absent : ∀ a, t.isSome a = false → t.encode a = []
  present : ∀ a, t.isSome a = true → t.encode a ≠ []
  injective : ∀ a b, (t.encode a).length < 2 ^ 64 → t.encode a = t.encode b → a = b

/-- A value is read back if it is the rest of the payload, and no placeholder
is the last field seen. -/
def Returns (t : Trail α) (a : α) : Prop :=
  (t.encode a).length < 2 ^ 64 → ∀ rest startedLen payloadLength,
    (t.encode a ++ rest).length ≤ startedLen →
    startedLen - (t.encode a ++ rest).length + (t.encode a).length = payloadLength →
    Reads (t.decode startedLen payloadLength) (t.encode a ++ rest)
      (a, if t.isSome a then some true else none) rest

theorem nil_lawful : nil.Lawful := ⟨fun _ => rfl, fun _ _ => rfl, nofun, fun _ _ _ _ => rfl⟩

theorem nil_returns (u : Unit) : nil.Returns u := fun _ _ _ _ _ _ => rfl

section Cons

variable {c : Codec β} {t : Trail α}

/-- A field is written as its value, as a placeholder or not at all. -/
def fieldBytes (c : Codec β) (later : Bool) : Option β → Bytes
  | some b => c.encode b
  | none => if later then [emptyStringCode] else []

theorem Lawful.cons_encode (h : t.Lawful) (o : Option β) (a : α) :
    (cons c t).encode (o, a) = fieldBytes c (t.isSome a) o ++ t.encode a := by
  cases o with
  | some b => rfl
  | none =>
    cases hsome : t.isSome a with
    | true => simp [Trail.cons, fieldBytes, hsome]
    | false => simp [Trail.cons, fieldBytes, hsome, h.absent a hsome]

theorem Lawful.cons (h : t.Lawful) (hmeasured : c.Measured)
    (hwrites : c.Writes) (hseparates : c.Separates) (hmarked : Marked c) : (cons c t).Lawful := by
  -- a value is told from a placeholder by its first byte
  have hvalue : ∀ {b : β} {a a' : α}, ((Trail.cons c t).encode (some b, a)).length < 2 ^ 64 →
      (Trail.cons c t).encode (some b, a) ≠ (Trail.cons c t).encode (none, a') := by
    intro b a a' hsize heq
    have hfirst := congrArg head? heq
    rw [h.cons_encode, fieldBytes, head?_append (hwrites b)] at hfirst
    cases ha' : t.isSome a' with
    | true =>
      simp only [Trail.cons, ha', if_true] at hfirst
      exact hmarked b (length_lt_of_append hsize).1 hfirst
    | false =>
      simp only [Trail.cons, ha', Bool.false_eq_true, if_false] at hfirst
      exact hwrites b (head?_eq_none_iff.mp hfirst)
  refine ⟨?_, ?_, ?_, ?_⟩
  · rintro ⟨_ | b, a⟩
    · cases hsome : t.isSome a <;> simp [Trail.cons, hsome, h.measured, add_comm]
    · simp [Trail.cons, hmeasured b, h.measured]
  · rintro ⟨_ | b, a⟩ hnone
    · have hrest : t.isSome a = false := hnone
      rw [h.cons_encode, h.absent a hrest, hrest]
      rfl
    · cases hnone
  · rintro ⟨_ | b, a⟩ hsome
    · have hrest : t.isSome a = true := hsome
      rw [h.cons_encode, hrest]
      exact cons_ne_nil _ _
    · exact append_ne_nil_of_left_ne_nil (hwrites b) _
  · rintro ⟨_ | b, a⟩ ⟨_ | b', a'⟩ hsize heq
    · cases ha : t.isSome a <;> cases ha' : t.isSome a' <;> simp [Trail.cons, ha, ha'] at hsize heq
      · have hempty := h.absent a ha
        rw [h.injective a a' (by rw [hempty]; decide) (hempty.trans (h.absent a' ha').symm)]
      · rw [h.injective a a' (by omega) heq]
    · rw [heq] at hsize
      exact absurd heq.symm (hvalue hsize)
    · exact absurd heq (hvalue hsize)
    · obtain ⟨rfl, hmore, hrest⟩ := hseparates.field hsize heq
      rw [h.injective a a' hmore hrest]

/-- A field is read back if something is left of the payload. -/
theorem trailingField_reads (hwrites : c.Writes) (hmarked : Marked c) {later : Bool} {o : Option β}
    (hvalue : ∀ b ∈ o, c.Returns b) (hsize : (fieldBytes c later o).length < 2 ^ 64)
    {more : Bytes} {startedLen payloadLength : Nat}
    (hleft : startedLen - (fieldBytes c later o ++ more).length < payloadLength ↔
      (o.isSome || later) = true) :
    Reads (trailingField c startedLen payloadLength) (fieldBytes c later o ++ more)
      (if o.isSome || later then some o else none) more := by
  refine (reads_remaining.mpr ⟨rfl, rfl⟩).bind ?_
  simp only [hleft]
  match o, later with
  | some b, _ =>
    have hpeek : Reads peek (c.encode b ++ more) (c.encode b).head? (c.encode b ++ more) := by
      change Except.ok (_, _) = Except.ok (_, _)
      rw [head?_append (hwrites b)]
    refine hpeek.bind ?_
    rw [if_neg (hmarked b hsize)]
    exact (hvalue b rfl hsize _).bind (reads_pure.mpr ⟨rfl, rfl⟩)
  | none, true => rfl
  | none, false => rfl

theorem Returns.cons (h : t.Lawful) (hwrites : c.Writes) (hmarked : Marked c) {o : Option β} {a : α}
    (hvalue : ∀ b ∈ o, c.Returns b) (hrest : t.Returns a) : (cons c t).Returns (o, a) := by
  intro hsize rest startedLen payloadLength hstart hpayload
  rw [h.cons_encode] at hsize hstart hpayload ⊢
  obtain ⟨hfield, hmore⟩ := length_lt_of_append hsize
  have hleft : startedLen - (fieldBytes c (t.isSome a) o ++ (t.encode a ++ rest)).length <
      payloadLength ↔ (o.isSome || t.isSome a) = true := by
    have hempty := h.absent a
    cases o with
    | some b =>
      have hpos := length_pos_iff.mpr (hwrites b)
      simp [fieldBytes] at hpayload hstart ⊢
      omega
    | none =>
      cases hsome : t.isSome a with
      | false => simp_all [fieldBytes]
      | true =>
        simp_all [fieldBytes]
        omega
  simp only [length_append] at hstart hpayload
  rw [append_assoc]
  refine (trailingField_reads hwrites hmarked hvalue hfield hleft).bind
    ((hrest hmore rest startedLen payloadLength ?_ ?_).bind (reads_pure.mpr ⟨?_, rfl⟩))
  · rw [length_append]
    omega
  · rw [length_append]
    omega
  · cases o <;> cases hsome : t.isSome a <;> simp [Trail.cons, hsome]

end Cons

end Trail

end Rlp

end Tempo
