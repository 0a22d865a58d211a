import VpnClient.Lib.Bytes
import VpnClient.Lib.Memory
import VpnClient.Lib.Run

/-!
# `bio_writer`: fields appended to a growing buffer

`bio/bio_writer.c` appends big-endian numbers of 8, 16, 24, 32 and 64 bits, data, and
data behind a length prefix of 8 to 32 bits to an allocated buffer. Before each write
`increase` grows the buffer by whole steps of `increase` bytes until the write fits. A
`wrap` prefixes everything written so far with its length, moving it up in place;
`skip` leaves space for the caller to fill.

`Holds w c` says that the writer holds the bytes `c`: they fill its buffer from the
start and `used` counts them. Each call appends its encoding to what the writer holds
(`Holds.writeUint`, `Holds.writeData`, `Holds.writeDataN`), or puts the length in front
of it (`Holds.wrap`), whatever growth it needed. A run of calls is planned as the list
of `Field`s a reader takes back: a wrap turns the fields before it into one
length-prefixed chunk (`planStep`). The writer then holds the encoding of its plan, and
when every call fits, every field of the plan fits its length prefix (`holds_run`).
-/

namespace VpnClient.Bio

open VpnClient.Lib.Bytes VpnClient.Lib.Memory VpnClient.Lib.Run

/-- `private_bio_writer_t`: the allocated buffer, the bytes of it used, and the step the
buffer grows by, which `bio_writer_create` makes positive. -/
structure BioWriter where
  buf : List UInt8
  used : ℕ
  increase : ℕ
  increase_pos : 0 < increase

/-! ## 1. The calls of `bio_writer.c` -/

/-- The `while` loop of `increase`: the length grows by `step` until `need` bytes fit. -/
def growLen (step : ℕ) (hstep : 0 < step) (need len : ℕ) : ℕ :=
  if need > len then growLen step hstep need (len + step) else len
termination_by need - len
decreasing_by omega

/-- `increase`: the buffer is reallocated, grown by whole steps, when `required` more
bytes do not fit. The loop sets `inc` exactly when it runs, that is when they do not
fit. Fresh bytes are unspecified; they are `0` here, and no call reads them. -/
def increase (w : BioWriter) (required : ℕ) : BioWriter :=
  let len := growLen w.increase w.increase_pos (w.used + required) w.buf.length
  if w.used + required > w.buf.length then { w with buf := realloc w.buf len 0 } else w

/-- `bio_writer_create`: `bufsize` bytes allocated, growing by `bufsize` (at least `4`),
or by `32` when `bufsize` is `0`. -/
def bioWriterCreate (bufsize : UInt32) : BioWriter where
  buf := List.replicate bufsize.toNat 0
  used := 0
  increase := if bufsize ≠ 0 then max bufsize.toNat 4 else 32
  increase_pos := by split_ifs <;> omega

/-- `write_uint8/16/32/64`: the `n` big-endian bytes of `value` at `used`. -/
def writeUint (w : BioWriter) (n value : ℕ) : BioWriter :=
  let w := increase w n
  { w with buf := memcpy w.buf w.used (ofValue n value), used := w.used + n }

/-- `write_uint8`. -/
def writeUint8 (w : BioWriter) (value : UInt8) : BioWriter := writeUint w 1 value.toNat

/-- `write_uint16`. -/
def writeUint16 (w : BioWriter) (value : UInt16) : BioWriter := writeUint w 2 value.toNat

/-- `write_uint32`. -/
def writeUint32 (w : BioWriter) (value : UInt32) : BioWriter := writeUint w 4 value.toNat

/-- `write_uint64`. -/
def writeUint64 (w : BioWriter) (value : UInt64) : BioWriter := writeUint w 8 value.toNat

/-- `write_uint24`: the last three of the four bytes `htonl` gives. -/
def writeUint24 (w : BioWriter) (value : UInt32) : BioWriter :=
  let w := increase w 3
  { w with buf := memcpy w.buf w.used ((ofValue 4 value.toNat).drop 1), used := w.used + 3 }

/-- `write_uint24` writes the three low bytes: those of `value` modulo `2 ^ 24`. -/
theorem writeUint24_eq (w : BioWriter) (value : UInt32) : writeUint24 w value = writeUint w 3 value.toNat := by
  simp only [writeUint24, writeUint, drop_one_ofValue]

/-- `write_data`. -/
def writeData (w : BioWriter) (value : List UInt8) : BioWriter :=
  let w := increase w value.length
  { w with buf := memcpy w.buf w.used value, used := w.used + value.length }

/-- `write_data8/16/32`: the length in `n` bytes, then the data. The length is cut to
the width of the prefix, as the cast to the `write_uint` argument cuts it. -/
def writeDataN (w : BioWriter) (n : ℕ) (value : List UInt8) : BioWriter :=
  writeData (writeUint (increase w (n + value.length)) n value.length) value

/-- `write_data8`. -/
def writeData8 (w : BioWriter) (value : List UInt8) : BioWriter := writeDataN w 1 value

/-- `write_data16`. -/
def writeData16 (w : BioWriter) (value : List UInt8) : BioWriter := writeDataN w 2 value

/-- `write_data32`. -/
def writeData32 (w : BioWriter) (value : List UInt8) : BioWriter := writeDataN w 4 value

/-- `write_data24`: the length goes through `write_uint24`. -/
def writeData24 (w : BioWriter) (value : List UInt8) : BioWriter :=
  writeData (writeUint24 (increase w (3 + value.length)) (UInt32.ofNat value.length)) value

theorem writeData24_eq (w : BioWriter) (value : List UInt8) : writeData24 w value = writeDataN w 3 value := by
  rw [writeData24, writeDataN, writeUint24_eq, writeUint, writeUint, UInt32.toNat_ofNat',
    show (2 : ℕ) ^ 32 = 256 ^ 4 from rfl, ofValue_mod_of_le (by omega)]

/-- `wrap8/16/32`: the bytes written so far move up by `n`, and their number, in `n`
bytes, goes in front. -/
def wrap (w : BioWriter) (n : ℕ) : BioWriter :=
  let w := increase w n
  { w with buf := memcpy (memmove w.buf n 0 w.used) 0 (ofValue n w.used), used := w.used + n }

/-- `wrap8`. -/
def wrap8 (w : BioWriter) : BioWriter := wrap w 1

/-- `wrap16`. -/
def wrap16 (w : BioWriter) : BioWriter := wrap w 2

/-- `wrap32`. -/
def wrap32 (w : BioWriter) : BioWriter := wrap w 4

/-- `wrap24`: the length goes through `htonl`, of which the last three bytes are kept. -/
def wrap24 (w : BioWriter) : BioWriter :=
  let w := increase w 3
  { w with buf := memcpy (memmove w.buf 3 0 w.used) 0 ((ofValue 4 w.used).drop 1), used := w.used + 3 }

theorem wrap24_eq (w : BioWriter) : wrap24 w = wrap w 3 := by
  simp only [wrap24, wrap, drop_one_ofValue]

/-- `skip`: `len` bytes of space; the writer, and where the space starts. -/
def skip (w : BioWriter) (len : ℕ) : BioWriter × ℕ :=
  let w := increase w len
  ({ w with used := w.used + len }, w.used)

/-- `get_buf`. -/
def getBuf (w : BioWriter) : List UInt8 := w.buf.take w.used

/-- `extract_buf`: the bytes written, and the writer emptied. -/
def extractBuf (w : BioWriter) : List UInt8 × BioWriter :=
  (getBuf w, { w with buf := [], used := 0 })

/-! ## 2. What a writer holds -/

/-- The writer holds `c`: the bytes from the start of its buffer, `used` of them. -/
structure Holds (w : BioWriter) (c : List UInt8) : Prop where
  used_eq : w.used = c.length
  stored : Stored w.buf 0 c

variable {w : BioWriter} {c : List UInt8}

theorem Holds.getBuf_eq (h : Holds w c) : getBuf w = c := by
  rw [getBuf, h.used_eq]
  exact h.stored.take_eq

theorem holds_bioWriterCreate (bufsize : UInt32) : Holds (bioWriterCreate bufsize) [] :=
  ⟨rfl, stored_nil⟩

theorem growLen_spec (step : ℕ) (hstep : 0 < step) (need len : ℕ) :
    len ≤ growLen step hstep need len ∧ need ≤ growLen step hstep need len := by
  induction len using growLen.induct step hstep need with
  | case1 len hlt ih =>
    rw [growLen, if_pos hlt]
    omega
  | case2 len hle =>
    rw [growLen, if_neg hle]
    omega

/-- `increase` keeps what the writer holds and makes room for `required` more bytes. -/
theorem Holds.increase (h : Holds w c) (required : ℕ) :
    Holds (increase w required) c ∧ w.used + required ≤ (increase w required).buf.length ∧
      (increase w required).used = w.used := by
  unfold VpnClient.Bio.increase
  dsimp only
  have hgrow := growLen_spec w.increase w.increase_pos (w.used + required) w.buf.length
  split_ifs with hfit
  · refine ⟨⟨h.used_eq, h.stored.realloc 0 ?_⟩, by simp; omega, rfl⟩
    rw [← h.used_eq]
    omega
  · exact ⟨h, by omega, rfl⟩

/-- Bytes copied at `used`, after room was made for them, are appended. -/
theorem Holds.append (h : Holds w c) {l : List UInt8} {k : ℕ} (hk : l.length = k)
    (hroom : w.used + k ≤ w.buf.length) :
    Holds { w with buf := memcpy w.buf w.used l, used := w.used + k } (c ++ l) := by
  subst hk
  refine ⟨by simp [h.used_eq], ?_⟩
  rw [stored_append]
  refine ⟨h.stored.memcpy_of_disjoint hroom (.inl (by rw [h.used_eq]; omega)), ?_⟩
  rw [Nat.zero_add, ← h.used_eq]
  exact stored_memcpy hroom

theorem Holds.writeUint (h : Holds w c) (n value : ℕ) : Holds (writeUint w n value) (c ++ ofValue n value) := by
  obtain ⟨hi, hroom, hused⟩ := h.increase n
  exact hi.append (length_ofValue n value) (by rw [hused]; exact hroom)

theorem Holds.writeData (h : Holds w c) (value : List UInt8) : Holds (writeData w value) (c ++ value) := by
  obtain ⟨hi, hroom, hused⟩ := h.increase value.length
  exact hi.append rfl (by rw [hused]; exact hroom)

theorem Holds.writeDataN (h : Holds w c) (n : ℕ) (value : List UInt8) :
    Holds (writeDataN w n value) (c ++ (ofValue n value.length ++ value)) := by
  rw [← List.append_assoc]
  exact (((h.increase _).1.writeUint n value.length).writeData value)

/-- A wrap puts the number of bytes held, in `n` bytes, in front of them. -/
theorem Holds.wrap (h : Holds w c) (n : ℕ) : Holds (wrap w n) (ofValue n c.length ++ c) := by
  obtain ⟨hi, hroom, hused⟩ := h.increase n
  have hu := hi.used_eq
  have hmv : Stored (memmove (VpnClient.Bio.increase w n).buf n 0 (VpnClient.Bio.increase w n).used)
      (n + (0 - 0)) c :=
    hi.stored.memmove_of_le (by omega) (by omega) (Nat.le_refl _) (by omega)
  refine ⟨?_, ?_⟩
  · simp only [VpnClient.Bio.wrap, List.length_append, length_ofValue]
    omega
  simp only [VpnClient.Bio.wrap]
  rw [stored_append, length_ofValue, Nat.zero_add, ← hi.used_eq]
  have hlen : 0 + (ofValue n (VpnClient.Bio.increase w n).used).length ≤
      (memmove (VpnClient.Bio.increase w n).buf n 0 (VpnClient.Bio.increase w n).used).length := by
    rw [length_memmove (by omega) (by omega), length_ofValue]
    omega
  exact ⟨stored_memcpy hlen, hmv.memcpy_of_disjoint hlen (.inr (by simp))⟩

/-- `skip`, and the caller's filling of the space with `fill`. -/
theorem Holds.skip (h : Holds w c) {len : ℕ} {fill : List UInt8} (hfill : fill.length = len) :
    Holds { (skip w len).1 with buf := memcpy (skip w len).1.buf (skip w len).2 fill } (c ++ fill) := by
  obtain ⟨hi, hroom, hused⟩ := h.increase len
  exact hi.append hfill (by rw [hused]; exact hroom)

/-! ## 3. Runs of writes and the fields they leave -/

/-- A call on the writer. `skip` stands for the call and the caller's filling of the
space it leaves with zeros. -/
inductive WriteOp
  | uint8 (v : UInt8)
  | uint16 (v : UInt16)
  | uint24 (v : UInt32)
  | uint32 (v : UInt32)
  | uint64 (v : UInt64)
  | data (d : List UInt8)
  | data8 (d : List UInt8)
  | data16 (d : List UInt8)
  | data24 (d : List UInt8)
  | data32 (d : List UInt8)
  | wrap8
  | wrap16
  | wrap24
  | wrap32
  | skip (len : ℕ)

/-- The call on the writer. -/
def WriteOp.apply (w : BioWriter) : WriteOp → BioWriter
  | .uint8 v => writeUint8 w v
  | .uint16 v => writeUint16 w v
  | .uint24 v => writeUint24 w v
  | .uint32 v => writeUint32 w v
  | .uint64 v => writeUint64 w v
  | .data d => writeData w d
  | .data8 d => writeData8 w d
  | .data16 d => writeData16 w d
  | .data24 d => writeData24 w d
  | .data32 d => writeData32 w d
  | .wrap8 => Bio.wrap8 w
  | .wrap16 => Bio.wrap16 w
  | .wrap24 => Bio.wrap24 w
  | .wrap32 => Bio.wrap32 w
  | .skip len =>
    { (Bio.skip w len).1 with buf := memcpy (Bio.skip w len).1.buf (Bio.skip w len).2 (List.replicate len 0) }

/-- A call fits, with `used` bytes written before it: a 24-bit number below `2 ^ 24`,
data whose length its prefix holds, a wrap of bytes whose number its prefix holds. -/
def WriteOp.Fits (used : ℕ) : WriteOp → Prop
  | .uint24 v => v.toNat < 2 ^ 24
  | .data8 d => d.length < 2 ^ 8
  | .data16 d => d.length < 2 ^ 16
  | .data24 d => d.length < 2 ^ 24
  | .data32 d => d.length < 2 ^ 32
  | .wrap8 => used < 2 ^ 8
  | .wrap16 => used < 2 ^ 16
  | .wrap24 => used < 2 ^ 24
  | .wrap32 => used < 2 ^ 32
  | .uint8 _ | .uint16 _ | .uint32 _ | .uint64 _ | .data _ | .skip _ => True

instance WriteOp.decFits (used : ℕ) : (op : WriteOp) → Decidable (op.Fits used)
  | .uint24 v => inferInstanceAs (Decidable (v.toNat < 2 ^ 24))
  | .data8 d => inferInstanceAs (Decidable (d.length < 2 ^ 8))
  | .data16 d => inferInstanceAs (Decidable (d.length < 2 ^ 16))
  | .data24 d => inferInstanceAs (Decidable (d.length < 2 ^ 24))
  | .data32 d => inferInstanceAs (Decidable (d.length < 2 ^ 32))
  | .wrap8 => inferInstanceAs (Decidable (used < 2 ^ 8))
  | .wrap16 => inferInstanceAs (Decidable (used < 2 ^ 16))
  | .wrap24 => inferInstanceAs (Decidable (used < 2 ^ 24))
  | .wrap32 => inferInstanceAs (Decidable (used < 2 ^ 32))
  | .uint8 _ | .uint16 _ | .uint32 _ | .uint64 _ | .data _ | .skip _ => isTrue trivial

/-- A field of the buffer, as a reader takes it back. -/
inductive Field
  | uint8 (v : UInt8)
  | uint16 (v : UInt16)
  | uint24 (v : UInt32)
  | uint32 (v : UInt32)
  | uint64 (v : UInt64)
  | data (d : List UInt8)
  | data8 (d : List UInt8)
  | data16 (d : List UInt8)
  | data24 (d : List UInt8)
  | data32 (d : List UInt8)

/-- The bytes of a field: numbers big-endian, chunks behind their length. -/
def Field.bytes : Field → List UInt8
  | .uint8 v => ofValue 1 v.toNat
  | .uint16 v => ofValue 2 v.toNat
  | .uint24 v => ofValue 3 v.toNat
  | .uint32 v => ofValue 4 v.toNat
  | .uint64 v => ofValue 8 v.toNat
  | .data d => d
  | .data8 d => ofValue 1 d.length ++ d
  | .data16 d => ofValue 2 d.length ++ d
  | .data24 d => ofValue 3 d.length ++ d
  | .data32 d => ofValue 4 d.length ++ d

/-- The bytes of fields in order. -/
def encode (fs : List Field) : List UInt8 := fs.flatMap Field.bytes

@[simp] theorem encode_nil : encode [] = [] := rfl

@[simp] theorem encode_cons (f : Field) (fs : List Field) : encode (f :: fs) = f.bytes ++ encode fs := rfl

@[simp] theorem encode_singleton (f : Field) : encode [f] = f.bytes := by
  simp [encode]

@[simp] theorem encode_append_singleton (fs : List Field) (f : Field) :
    encode (fs ++ [f]) = encode fs ++ f.bytes := by
  simp [encode]

/-- A field fits: a 24-bit number is below `2 ^ 24`, a length below its prefix's reach. -/
def Field.Fits : Field → Prop
  | .uint24 v => v.toNat < 2 ^ 24
  | .data8 d => d.length < 2 ^ 8
  | .data16 d => d.length < 2 ^ 16
  | .data24 d => d.length < 2 ^ 24
  | .data32 d => d.length < 2 ^ 32
  | .uint8 _ | .uint16 _ | .uint32 _ | .uint64 _ | .data _ => True

/-- The fields a call leaves: a wrap turns all fields before it into one chunk behind
its length. -/
def planStep (fs : List Field) : WriteOp → List Field
  | .uint8 v => fs ++ [.uint8 v]
  | .uint16 v => fs ++ [.uint16 v]
  | .uint24 v => fs ++ [.uint24 v]
  | .uint32 v => fs ++ [.uint32 v]
  | .uint64 v => fs ++ [.uint64 v]
  | .data d => fs ++ [.data d]
  | .data8 d => fs ++ [.data8 d]
  | .data16 d => fs ++ [.data16 d]
  | .data24 d => fs ++ [.data24 d]
  | .data32 d => fs ++ [.data32 d]
  | .wrap8 => [.data8 (encode fs)]
  | .wrap16 => [.data16 (encode fs)]
  | .wrap24 => [.data24 (encode fs)]
  | .wrap32 => [.data32 (encode fs)]
  | .skip len => fs ++ [.data (List.replicate len 0)]

variable {fs : List Field}

/-- One call appends the bytes of the fields it adds, or wraps those held. -/
theorem Holds.step (h : Holds w (encode fs)) : ∀ op : WriteOp, Holds (op.apply w) (encode (planStep fs op))
  | .uint8 v | .uint16 v | .uint32 v | .uint64 v => by
    simpa [WriteOp.apply, planStep, Field.bytes, writeUint8, writeUint16, writeUint32, writeUint64]
      using h.writeUint _ _
  | .uint24 v => by
    simpa [WriteOp.apply, planStep, Field.bytes, writeUint24_eq] using h.writeUint 3 v.toNat
  | .data d => by simpa [WriteOp.apply, planStep, Field.bytes] using h.writeData d
  | .data8 d | .data16 d | .data32 d => by
    simpa [WriteOp.apply, planStep, Field.bytes, writeData8, writeData16, writeData32] using h.writeDataN _ d
  | .data24 d => by
    simpa [WriteOp.apply, planStep, Field.bytes, writeData24_eq] using h.writeDataN 3 d
  | .wrap8 | .wrap16 | .wrap32 => by
    simpa [WriteOp.apply, planStep, Field.bytes, wrap8, wrap16, wrap32] using h.wrap _
  | .wrap24 => by
    simpa [WriteOp.apply, planStep, Field.bytes, wrap24_eq] using h.wrap 3
  | .skip len => by
    simpa [WriteOp.apply, planStep, Field.bytes] using h.skip (List.length_replicate (n := len) (a := (0 : UInt8)))

/-- A call that fits leaves fields that fit. -/
theorem fits_step (h : Holds w (encode fs)) (hfs : ∀ f ∈ fs, f.Fits) {op : WriteOp} (hop : op.Fits w.used) :
    ∀ f ∈ planStep fs op, f.Fits := by
  have hu := h.used_eq
  cases op <;> simp only [planStep, List.mem_append, List.mem_cons, List.not_mem_nil, or_false] <;>
    rintro f (hf | rfl)
  -- the fields held before the call are kept as they were
  all_goals first | exact hfs f hf | skip
  -- the field the call adds, or the chunk a wrap makes of what was held
  all_goals first | trivial | (simp only [WriteOp.Fits] at hop; simp only [Field.Fits]; omega)

/-- **A run of writes holds the encoding of its plan**, and when every call fits, every
field of the plan fits. -/
theorem holds_run {ops : List WriteOp} (hops : Allowed WriteOp.apply (fun w op => op.Fits w.used) w ops)
    (h : Holds w (encode fs)) (hfs : ∀ f ∈ fs, f.Fits) :
    Holds (run WriteOp.apply w ops) (encode (run planStep fs ops)) ∧ ∀ f ∈ run planStep fs ops, f.Fits :=
  run_simulation_of_allowed (R := fun w fs => Holds w (encode fs) ∧ ∀ f ∈ fs, f.Fits)
    (fun _ _ op hr hop => ⟨hr.1.step op, fits_step hr.1 hr.2 hop⟩) hops ⟨h, hfs⟩

end VpnClient.Bio
