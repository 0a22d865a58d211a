import VpnClient.Bio.Writer
import VpnClient.Lib.ByteReader

/-!
# `bio_reader`: fields taken back off the front or the back

`bio/bio_reader.c` reads big-endian numbers of 8 to 64 bits and data from a chunk, off
its front or, with the `_end` calls, off its back; `read_data8` to `read_data32` read a
length off the front and then that many bytes. A read that asks for more bytes than
remain fails and leaves the reader as it was, except that `read_data8` to `read_data32`
have taken the length off by then (`bio_read_failure`).

Once the pointer arithmetic of `get_ptr_end` and `chunk_skip_end` is worked out, a read
is the library's byte reader (`readDataInternal_front`, `readDataInternal_back`). Each
field a writer appends is then read back by the calls that correspond to it, whatever
follows it (`execAll_bytes_append`) or precedes it (`execAll_append_bytes`), and the
buffer of a run of writes is read back from the front in order and from the back in
reverse order (`bio_round_trip`).

Lengths are natural numbers here. In C, `remaining()` and the length `read_data` takes
are `uint32_t`; they agree with the model on every buffer below 4 GiB, which bounds the
messages the callers parse.
-/

namespace VpnClient.Bio

open VpnClient.Lib.Bytes VpnClient.Lib.Run

/-- `private_bio_reader_t`: the bytes that remain to be read. -/
structure BioReader where
  buf : List UInt8

/-- `remaining`. -/
def remaining (r : BioReader) : ℕ := r.buf.length

/-- `chunk_skip_end`: the chunk without `bytes` bytes at its front, or at its back;
`chunk_empty` where no more than `bytes` bytes are left. -/
def chunkSkipEnd (chunk : List UInt8) (bytes : ℕ) (fromEnd : Bool) : List UInt8 :=
  if chunk.length > bytes then
    if !fromEnd then chunk.drop bytes else chunk.take (chunk.length - bytes)
  else []

/-- `get_ptr_end`: where a read of `len` bytes starts. -/
def getPtrEnd (r : BioReader) (len : ℕ) (fromEnd : Bool) : List UInt8 :=
  if fromEnd then r.buf.drop (r.buf.length - len) else r.buf

/-- `read_data_internal`. -/
def readDataInternal (r : BioReader) (len : ℕ) (fromEnd : Bool) : Option (List UInt8) × BioReader :=
  if r.buf.length < len then (none, r)
  else (some ((getPtrEnd r len fromEnd).take len), ⟨chunkSkipEnd r.buf len fromEnd⟩)

/-- `read_uint8_internal` to `read_uint64_internal`, which differ in the width only: the
big-endian number of `n` bytes. -/
def readUintInternal (r : BioReader) (n : ℕ) (fromEnd : Bool) : Option ℕ × BioReader :=
  if r.buf.length < n then (none, r)
  else (some (value ((getPtrEnd r n fromEnd).take n)), ⟨chunkSkipEnd r.buf n fromEnd⟩)

/-- `read_uint8_internal`. -/
def readUint8Internal (r : BioReader) (fromEnd : Bool) : Option ℕ × BioReader := readUintInternal r 1 fromEnd

/-- `read_uint16_internal`. -/
def readUint16Internal (r : BioReader) (fromEnd : Bool) : Option ℕ × BioReader := readUintInternal r 2 fromEnd

/-- `read_uint32_internal`. -/
def readUint32Internal (r : BioReader) (fromEnd : Bool) : Option ℕ × BioReader := readUintInternal r 4 fromEnd

/-- `read_uint64_internal`. -/
def readUint64Internal (r : BioReader) (fromEnd : Bool) : Option ℕ × BioReader := readUintInternal r 8 fromEnd

/-- `read_uint24_internal`: the three bytes are copied into the first three bytes of a
32-bit `tmp` whose last byte, `junk`, is never written, and `ntohl(tmp) >> 8` drops
that byte again. -/
def readUint24Internal (r : BioReader) (junk : UInt8) (fromEnd : Bool) : Option ℕ × BioReader :=
  if r.buf.length < 3 then (none, r)
  else (some (value ((getPtrEnd r 3 fromEnd).take 3 ++ [junk]) / 2 ^ 8), ⟨chunkSkipEnd r.buf 3 fromEnd⟩)

/-- `read_data8`, `read_data16` and `read_data32`: a length of `n` bytes off the front,
then that many bytes. -/
def readDataN (r : BioReader) (n : ℕ) : Option (List UInt8) × BioReader :=
  match readUintInternal r n false with
  | (some len, r) => readDataInternal r len false
  | (none, r) => (none, r)

/-- `read_data8`. -/
def readData8 (r : BioReader) : Option (List UInt8) × BioReader := readDataN r 1

/-- `read_data16`. -/
def readData16 (r : BioReader) : Option (List UInt8) × BioReader := readDataN r 2

/-- `read_data32`. -/
def readData32 (r : BioReader) : Option (List UInt8) × BioReader := readDataN r 4

/-- `read_data24`, whose length is read by `read_uint24`. -/
def readData24 (r : BioReader) (junk : UInt8) : Option (List UInt8) × BioReader :=
  match readUint24Internal r junk false with
  | (some len, r) => readDataInternal r len false
  | (none, r) => (none, r)

/-- What a read returns: a number or a chunk. -/
inductive Value
  | num (v : ℕ)
  | chunk (d : List UInt8)
  deriving DecidableEq

/-- The reader's methods: `read_uint8` is `.uint8 false` and `read_uint8_end` is
`.uint8 true`, `read_data(len)` is `.data len false`, and so on. -/
inductive ReadCall
  | uint8 (fromEnd : Bool)
  | uint16 (fromEnd : Bool)
  | uint24 (fromEnd : Bool)
  | uint32 (fromEnd : Bool)
  | uint64 (fromEnd : Bool)
  | data (len : ℕ) (fromEnd : Bool)
  | data8
  | data16
  | data24
  | data32

/-- One call, with `junk` the byte `read_uint24` leaves in `tmp`. -/
def ReadCall.exec (junk : UInt8) (r : BioReader) : ReadCall → Option Value × BioReader
  | .uint8 e => Prod.map (Option.map .num) id (readUint8Internal r e)
  | .uint16 e => Prod.map (Option.map .num) id (readUint16Internal r e)
  | .uint24 e => Prod.map (Option.map .num) id (readUint24Internal r junk e)
  | .uint32 e => Prod.map (Option.map .num) id (readUint32Internal r e)
  | .uint64 e => Prod.map (Option.map .num) id (readUint64Internal r e)
  | .data len e => Prod.map (Option.map .chunk) id (readDataInternal r len e)
  | .data8 => Prod.map (Option.map .chunk) id (readData8 r)
  | .data16 => Prod.map (Option.map .chunk) id (readData16 r)
  | .data24 => Prod.map (Option.map .chunk) id (readData24 r junk)
  | .data32 => Prod.map (Option.map .chunk) id (readData32 r)

/-- Calls in order, each on the reader the one before left. -/
def execAll (junk : UInt8) : BioReader → List ReadCall → List (Option Value) × BioReader
  | r, [] => ([], r)
  | r, c :: cs =>
    let (v, r) := c.exec junk r
    let (vs, r) := execAll junk r cs
    (v :: vs, r)

/-- The width of a fixed-width read, and the length `read_data` asks for; a
`read_dataN` has none before its length is read. -/
def ReadCall.width : ReadCall → Option ℕ
  | .uint8 _ => some 1
  | .uint16 _ => some 2
  | .uint24 _ => some 3
  | .uint32 _ => some 4
  | .uint64 _ => some 8
  | .data len _ => some len
  | .data8 | .data16 | .data24 | .data32 => none

/-! ## 1. Reads as the library reader's -/

/-- A read's result from the library reader's: the bytes and a reader on the rest, or
no bytes and the reader kept. -/
def ofRead (r : BioReader) : Option (List UInt8 × List UInt8) → Option (List UInt8) × BioReader
  | none => (none, r)
  | some (d, rest) => (some d, ⟨rest⟩)

/-- `chunk_empty`, where exactly `bytes` bytes are left, is what remains either way. -/
theorem chunkSkipEnd_of_le {chunk : List UInt8} {bytes : ℕ} (h : bytes ≤ chunk.length) (fromEnd : Bool) :
    chunkSkipEnd chunk bytes fromEnd = if fromEnd then chunk.take (chunk.length - bytes) else chunk.drop bytes := by
  unfold chunkSkipEnd
  by_cases hlt : chunk.length > bytes
  · cases fromEnd <;> simp [hlt]
  · have hnil : chunk.drop bytes = [] := List.drop_eq_nil_of_le (by omega)
    cases fromEnd <;> simp [hlt, hnil, show chunk.length - bytes = 0 by omega]

theorem readDataInternal_front (r : BioReader) (len : ℕ) :
    readDataInternal r len false = ofRead r (Lib.ByteReader.readData len r.buf) := by
  unfold readDataInternal Lib.ByteReader.readData
  split_ifs with h
  · rfl
  · rw [chunkSkipEnd_of_le (by omega)]
    rfl

theorem readDataInternal_back (r : BioReader) (len : ℕ) :
    readDataInternal r len true = ofRead r (Lib.ByteReader.readDataEnd len r.buf) := by
  unfold readDataInternal Lib.ByteReader.readDataEnd
  split_ifs with h
  · rfl
  · rw [chunkSkipEnd_of_le (by omega)]
    simp only [getPtrEnd, if_true, ofRead]
    rw [List.take_of_length_le (by simp only [List.length_drop]; omega)]

/-- A number read is the value of the bytes a data read of its width takes. -/
theorem readUintInternal_eq (r : BioReader) (n : ℕ) (fromEnd : Bool) :
    readUintInternal r n fromEnd = Prod.map (Option.map value) id (readDataInternal r n fromEnd) := by
  unfold readUintInternal readDataInternal
  split_ifs <;> rfl

theorem value_append_singleton_div (d : List UInt8) (junk : UInt8) : value (d ++ [junk]) / 2 ^ 8 = value d := by
  rw [value_append_singleton]
  have := toNat_lt_256 junk
  omega

/-- The byte `read_uint24` never writes does not reach its result. -/
theorem readUint24Internal_eq (r : BioReader) (junk : UInt8) (fromEnd : Bool) :
    readUint24Internal r junk fromEnd = readUintInternal r 3 fromEnd := by
  unfold readUint24Internal readUintInternal
  simp only [value_append_singleton_div]

theorem readData24_eq (r : BioReader) (junk : UInt8) : readData24 r junk = readDataN r 3 := by
  unfold readData24 readDataN
  rw [readUint24Internal_eq]

/-- A read of more than `remaining` bytes fails and keeps the reader. -/
theorem readDataInternal_of_lt {r : BioReader} {len : ℕ} (h : remaining r < len) (fromEnd : Bool) :
    readDataInternal r len fromEnd = (none, r) := if_pos h

theorem readUintInternal_of_lt {r : BioReader} {n : ℕ} (h : remaining r < n) (fromEnd : Bool) :
    readUintInternal r n fromEnd = (none, r) := if_pos h

/-- A fixed-width read, or a `read_data` of `len` bytes, that asks for more than
`remaining` fails and keeps the reader. -/
theorem exec_of_remaining_lt (junk : UInt8) {r : BioReader} {c : ReadCall} {n : ℕ} (hc : c.width = some n)
    (hn : remaining r < n) : c.exec junk r = (none, r) := by
  cases c with
  | uint8 e | uint16 e | uint32 e | uint64 e =>
    simp only [ReadCall.width, Option.some.injEq] at hc
    subst hc
    simp [ReadCall.exec, readUint8Internal, readUint16Internal, readUint32Internal, readUint64Internal,
      readUintInternal_of_lt hn]
  | uint24 e =>
    simp only [ReadCall.width, Option.some.injEq] at hc
    subst hc
    simp [ReadCall.exec, readUint24Internal_eq, readUintInternal_of_lt hn]
  | data len e =>
    simp only [ReadCall.width, Option.some.injEq] at hc
    subst hc
    simp [ReadCall.exec, readDataInternal_of_lt hn]
  | data8 | data16 | data24 | data32 => simp [ReadCall.width] at hc

/-! ## 2. Reading a field back -/

section ReadBack

variable {n : ℕ} {d : List UInt8} (t : List UInt8)

theorem readDataInternal_append (hd : d.length = n) : readDataInternal ⟨d ++ t⟩ n false = (some d, ⟨t⟩) := by
  rw [readDataInternal_front, Lib.ByteReader.readData_append hd]
  rfl

theorem readDataInternal_append_back (hd : d.length = n) : readDataInternal ⟨t ++ d⟩ n true = (some d, ⟨t⟩) := by
  rw [readDataInternal_back, Lib.ByteReader.readDataEnd_append t hd]
  rfl

theorem readUintInternal_append {v : ℕ} (hv : v < 256 ^ n) : readUintInternal ⟨ofValue n v ++ t⟩ n false = (some v, ⟨t⟩) := by
  rw [readUintInternal_eq, readDataInternal_append t (length_ofValue n v)]
  simp [value_ofValue, Nat.mod_eq_of_lt hv]

theorem readUintInternal_append_back {v : ℕ} (hv : v < 256 ^ n) : readUintInternal ⟨t ++ ofValue n v⟩ n true = (some v, ⟨t⟩) := by
  rw [readUintInternal_eq, readDataInternal_append_back t (length_ofValue n v)]
  simp [value_ofValue, Nat.mod_eq_of_lt hv]

theorem readDataN_append (hd : d.length < 256 ^ n) : readDataN ⟨ofValue n d.length ++ d ++ t⟩ n = (some d, ⟨t⟩) := by
  unfold readDataN
  rw [List.append_assoc, readUintInternal_append (d ++ t) hd]
  exact readDataInternal_append t rfl

/-- Unlike the other reads, a `read_dataN` that fails for want of data does not keep the
reader: the length it read is gone. -/
theorem readDataN_short {len : ℕ} (hlen : len < 256 ^ n) (hshort : t.length < len) :
    readDataN ⟨ofValue n len ++ t⟩ n = (none, ⟨t⟩) := by
  unfold readDataN
  rw [readUintInternal_append t hlen]
  exact readDataInternal_of_lt hshort false

end ReadBack

/-- Reading `cs` and then `cs'` is reading `cs ++ cs'`. -/
theorem execAll_append {junk : UInt8} {r r' r'' : BioReader} {cs cs' : List ReadCall} {vs vs' : List (Option Value)}
    (h : execAll junk r cs = (vs, r')) (h' : execAll junk r' cs' = (vs', r'')) :
    execAll junk r (cs ++ cs') = (vs ++ vs', r'') := by
  induction cs generalizing r vs with
  | nil =>
    simp only [execAll, Prod.mk.injEq] at h
    obtain ⟨rfl, rfl⟩ := h
    exact h'
  | cons c cs ih =>
    -- the first call, then the rest on the reader it leaves
    rcases hc : c.exec junk r with ⟨v, r₁⟩
    rcases hcs : execAll junk r₁ cs with ⟨vs₁, r₂⟩
    simp only [execAll, hc, hcs, Prod.mk.injEq] at h
    obtain ⟨rfl, rfl⟩ := h
    simp only [List.cons_append, execAll, hc, ih hcs]

/-- The calls that read a field back off the front. -/
def Field.calls : Field → List ReadCall
  | .uint8 _ => [.uint8 false]
  | .uint16 _ => [.uint16 false]
  | .uint24 _ => [.uint24 false]
  | .uint32 _ => [.uint32 false]
  | .uint64 _ => [.uint64 false]
  | .data d => [.data d.length false]
  | .data8 _ => [.data8]
  | .data16 _ => [.data16]
  | .data24 _ => [.data24]
  | .data32 _ => [.data32]

/-- What they return: the number, or the chunk. -/
def Field.values : Field → List Value
  | .uint8 v => [.num v.toNat]
  | .uint16 v => [.num v.toNat]
  | .uint24 v => [.num v.toNat]
  | .uint32 v => [.num v.toNat]
  | .uint64 v => [.num v.toNat]
  | .data d | .data8 d | .data16 d | .data24 d | .data32 d => [.chunk d]

/-- The calls that read a field back off the back: a chunk, then its length. -/
def Field.callsEnd : Field → List ReadCall
  | .uint8 _ => [.uint8 true]
  | .uint16 _ => [.uint16 true]
  | .uint24 _ => [.uint24 true]
  | .uint32 _ => [.uint32 true]
  | .uint64 _ => [.uint64 true]
  | .data d => [.data d.length true]
  | .data8 d => [.data d.length true, .uint8 true]
  | .data16 d => [.data d.length true, .uint16 true]
  | .data24 d => [.data d.length true, .uint24 true]
  | .data32 d => [.data d.length true, .uint32 true]

/-- What they return. -/
def Field.valuesEnd : Field → List Value
  | .uint8 v => [.num v.toNat]
  | .uint16 v => [.num v.toNat]
  | .uint24 v => [.num v.toNat]
  | .uint32 v => [.num v.toNat]
  | .uint64 v => [.num v.toNat]
  | .data d => [.chunk d]
  | .data8 d | .data16 d | .data24 d | .data32 d => [.chunk d, .num d.length]

/-! ## 3. Round trips -/

section RoundTrip

variable (junk : UInt8) {c : ReadCall} {n : ℕ} (t : List UInt8)

/-- A call that reads a number of `n` bytes off the front takes back a number written there. -/
theorem execAll_uint_append (hc : ∀ r, c.exec junk r = Prod.map (Option.map .num) id (readUintInternal r n false))
    {v : ℕ} (hv : v < 256 ^ n) : execAll junk ⟨ofValue n v ++ t⟩ [c] = ([some (.num v)], ⟨t⟩) := by
  simp [execAll, hc, readUintInternal_append t hv]

/-- The same off the back. -/
theorem execAll_append_uint (hc : ∀ r, c.exec junk r = Prod.map (Option.map .num) id (readUintInternal r n true))
    {v : ℕ} (hv : v < 256 ^ n) : execAll junk ⟨t ++ ofValue n v⟩ [c] = ([some (.num v)], ⟨t⟩) := by
  simp [execAll, hc, readUintInternal_append_back t hv]

/-- A `read_dataN` call takes back a chunk written behind its length. -/
theorem execAll_dataN_append (hc : ∀ r, c.exec junk r = Prod.map (Option.map .chunk) id (readDataN r n))
    {d : List UInt8} (hd : d.length < 256 ^ n) :
    execAll junk ⟨ofValue n d.length ++ d ++ t⟩ [c] = ([some (.chunk d)], ⟨t⟩) := by
  simp only [execAll, hc, readDataN_append t hd]
  rfl

/-- Off the back, the chunk is read first and then its length. -/
theorem execAll_append_dataN (hc : ∀ r, c.exec junk r = Prod.map (Option.map .num) id (readUintInternal r n true))
    {d : List UInt8} (hd : d.length < 256 ^ n) :
    execAll junk ⟨t ++ (ofValue n d.length ++ d)⟩ [.data d.length true, c] =
      ([some (.chunk d), some (.num d.length)], ⟨t⟩) := by
  have hchunk : execAll junk ⟨t ++ ofValue n d.length ++ d⟩ [.data d.length true] =
      ([some (.chunk d)], ⟨t ++ ofValue n d.length⟩) := by
    simp only [execAll, ReadCall.exec, readDataInternal_append_back (t ++ ofValue n d.length) rfl]
    rfl
  rw [← List.append_assoc]
  exact execAll_append hchunk (execAll_append_uint junk t hc hd)

/-- A field that fits is read back off the front by its calls, whatever follows it. -/
theorem execAll_bytes_append {f : Field} (hf : f.Fits) :
    execAll junk ⟨f.bytes ++ t⟩ f.calls = (f.values.map some, ⟨t⟩) := by
  cases f with
  | uint8 v => exact execAll_uint_append junk t (fun _ => rfl) (by simpa using v.toNat_lt)
  | uint16 v => exact execAll_uint_append junk t (fun _ => rfl) (by simpa using v.toNat_lt)
  | uint24 v =>
    exact execAll_uint_append junk t (fun r => by simp [ReadCall.exec, readUint24Internal_eq])
      (by simpa [Field.Fits] using hf)
  | uint32 v => exact execAll_uint_append junk t (fun _ => rfl) (by simpa using v.toNat_lt)
  | uint64 v => exact execAll_uint_append junk t (fun _ => rfl) (by simpa using v.toNat_lt)
  | data d => simp [execAll, ReadCall.exec, Field.bytes, Field.calls, Field.values, readDataInternal_append t rfl]
  | data8 d => exact execAll_dataN_append junk t (fun _ => rfl) (by simpa [Field.Fits] using hf)
  | data16 d => exact execAll_dataN_append junk t (fun _ => rfl) (by simpa [Field.Fits] using hf)
  | data24 d =>
    exact execAll_dataN_append junk t (fun r => by simp [ReadCall.exec, readData24_eq])
      (by simpa [Field.Fits] using hf)
  | data32 d => exact execAll_dataN_append junk t (fun _ => rfl) (by simpa [Field.Fits] using hf)

/-- A field that fits is read back off the back by its `_end` calls, whatever precedes it. -/
theorem execAll_append_bytes {f : Field} (hf : f.Fits) :
    execAll junk ⟨t ++ f.bytes⟩ f.callsEnd = (f.valuesEnd.map some, ⟨t⟩) := by
  cases f with
  | uint8 v => exact execAll_append_uint junk t (fun _ => rfl) (by simpa using v.toNat_lt)
  | uint16 v => exact execAll_append_uint junk t (fun _ => rfl) (by simpa using v.toNat_lt)
  | uint24 v =>
    exact execAll_append_uint junk t (fun r => by simp [ReadCall.exec, readUint24Internal_eq])
      (by simpa [Field.Fits] using hf)
  | uint32 v => exact execAll_append_uint junk t (fun _ => rfl) (by simpa using v.toNat_lt)
  | uint64 v => exact execAll_append_uint junk t (fun _ => rfl) (by simpa using v.toNat_lt)
  | data d =>
    simp [execAll, ReadCall.exec, Field.bytes, Field.callsEnd, Field.valuesEnd, readDataInternal_append_back t rfl]
  | data8 d => exact execAll_append_dataN junk t (fun _ => rfl) (by simpa [Field.Fits] using hf)
  | data16 d => exact execAll_append_dataN junk t (fun _ => rfl) (by simpa [Field.Fits] using hf)
  | data24 d =>
    exact execAll_append_dataN junk t (fun r => by simp [ReadCall.exec, readUint24Internal_eq])
      (by simpa [Field.Fits] using hf)
  | data32 d => exact execAll_append_dataN junk t (fun _ => rfl) (by simpa [Field.Fits] using hf)

/-- The bytes of fields that fit are read back off the front, field by field in order. -/
theorem execAll_encode_append {fs : List Field} (hfs : ∀ f ∈ fs, f.Fits) :
    execAll junk ⟨encode fs ++ t⟩ (fs.flatMap Field.calls) = ((fs.flatMap Field.values).map some, ⟨t⟩) := by
  induction fs with
  | nil => rfl
  | cons f fs ih =>
    have hf := execAll_bytes_append junk (encode fs ++ t) (hfs f List.mem_cons_self)
    have hrest := ih (fun g hg => hfs g (List.mem_cons_of_mem f hg))
    rw [encode_cons, List.append_assoc, List.flatMap_cons, List.flatMap_cons, List.map_append]
    exact execAll_append hf hrest

/-- They are read back off the back too, the last field first. -/
theorem execAll_append_encode {fs : List Field} (hfs : ∀ f ∈ fs, f.Fits) :
    execAll junk ⟨t ++ encode fs⟩ (fs.reverse.flatMap Field.callsEnd) =
      ((fs.reverse.flatMap Field.valuesEnd).map some, ⟨t⟩) := by
  induction fs generalizing t with
  | nil => simp [execAll]
  | cons f fs ih =>
    -- what precedes the fields after `f` is `t` and `f`
    have hrest := ih (t ++ f.bytes) (fun g hg => hfs g (List.mem_cons_of_mem f hg))
    have hf := execAll_append_bytes junk t (hfs f List.mem_cons_self)
    rw [encode_cons, ← List.append_assoc, List.reverse_cons, List.flatMap_append, List.flatMap_append,
      List.map_append]
    simpa using execAll_append hrest hf

end RoundTrip

/-- **Round trip of `bio_writer` and `bio_reader`**: after any run of writes that fit, the
buffer `extract_buf` returns is read back by the calls of its fields in order, each
value and chunk as written, down to nothing; by their `_end` calls in reverse order as
well; and a fixed-width read or `read_data` of more than `remaining` bytes fails and
keeps the reader. -/
theorem bio_round_trip (bufsize : UInt32) (ops : List WriteOp) (junk : UInt8)
    (hops : Allowed WriteOp.apply (fun w op => op.Fits w.used) (bioWriterCreate bufsize) ops) :
    let fs := run planStep [] ops
    let r : BioReader := ⟨(extractBuf (run WriteOp.apply (bioWriterCreate bufsize) ops)).1⟩
    (execAll junk r (fs.flatMap Field.calls)).1 = (fs.flatMap Field.values).map some ∧
      remaining (execAll junk r (fs.flatMap Field.calls)).2 = 0 ∧
      (execAll junk r (fs.reverse.flatMap Field.callsEnd)).1 = (fs.reverse.flatMap Field.valuesEnd).map some ∧
      remaining (execAll junk r (fs.reverse.flatMap Field.callsEnd)).2 = 0 ∧
      ∀ (r : BioReader) (c : ReadCall) (n : ℕ), c.width = some n → remaining r < n → c.exec junk r = (none, r) := by
  intro fs r
  have h0 : Holds (bioWriterCreate bufsize) (encode []) := holds_bioWriterCreate bufsize
  obtain ⟨hholds, hfits⟩ := holds_run hops h0 (by simp)
  have hr : r = ⟨encode fs⟩ := by
    simp only [r, fs, extractBuf, hholds.getBuf_eq]
  have hfront := execAll_encode_append junk [] hfits
  have hback := execAll_append_encode junk [] hfits
  rw [List.append_nil] at hfront
  rw [List.nil_append] at hback
  rw [hr, hfront, hback]
  exact ⟨rfl, rfl, rfl, rfl, fun r c n hc hn => exec_of_remaining_lt junk hc hn⟩

/-- A byte, a chunk behind its length, and a wrap of both in a 16-bit length: the one
chunk reads back off the front, and off the back with its length after it. -/
theorem bio_round_trip_wrap :
    let ops := [WriteOp.uint8 5, .data8 [1, 2], .wrap16]
    let r : BioReader := ⟨(extractBuf (run WriteOp.apply (bioWriterCreate 0) ops)).1⟩
    Allowed WriteOp.apply (fun w op => op.Fits w.used) (bioWriterCreate 0) ops ∧
      (execAll 0 r [.data16]).1 = [some (.chunk [5, 2, 1, 2])] ∧
      (execAll 0 r [.data 4 true, .uint16 true]).1 = [some (.chunk [5, 2, 1, 2]), some (.num 4)] := by
  intro ops r
  have h2 : Allowed WriteOp.apply (fun w op => op.Fits w.used) (bioWriterCreate 0) [.uint8 5, .data8 [1, 2]] := by
    decide
  have h0 : Holds (bioWriterCreate 0) (encode []) := holds_bioWriterCreate 0
  have hused := (holds_run h2 h0 (by simp)).1.used_eq
  have hops : Allowed WriteOp.apply (fun w op => op.Fits w.used) (bioWriterCreate 0) ops := by
    rw [show ops = [.uint8 5, .data8 [1, 2]] ++ [.wrap16] from rfl, allowed_append]
    refine ⟨h2, ?_, trivial⟩
    show (run WriteOp.apply (bioWriterCreate 0) [.uint8 5, .data8 [1, 2]]).used < 2 ^ 16
    rw [hused]
    decide
  have h := bio_round_trip 0 ops 0 hops
  exact ⟨hops, h.1, h.2.2.1⟩

end VpnClient.Bio
