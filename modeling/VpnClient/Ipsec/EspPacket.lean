import VpnClient.Ipsec.EspContext
import VpnClient.Ipsec.IpPacket

/-!
# ESP packets

`esp_packet_t` (`libipsec/esp_packet.c`): an ESP packet between two hosts, with the
inner IP packet it carries once decrypted or before it is encrypted.

`encrypt` takes the next sequence number of an outbound context, pads the inner
packet twice (to the cipher's block size, then so that the ICV starts on a 4-byte
boundary), writes SPI, sequence number, IV and plaintext, and lets the AEAD encrypt
the plaintext in place and append the ICV. `decrypt` checks the lengths, asks the
inbound context whether the sequence number is fresh, decrypts, records the number
in the replay window, and strips the padding from the back (`remove_padding`).

The AEAD (the crypto plugins) is a parameter. What `esp_packet.c` relies on of it is
`Aead.Sound`: decryption inverts encryption under the same associated data and IV,
the ICV has `icv_size` bytes and the IV generator fills `iv_size` bytes.

The round trip (`decrypt_encrypt`) holds when the two paddings together leave a
whole number of cipher blocks: that is so when the block size divides `4` and the
IV size, or `4` divides both. It also needs the inner packet's encoding to parse
again, which an IPv4 packet whose header states a total length below 20 does not
(`IpPacket.lean`).
-/

namespace VpnClient.Ipsec

open VpnClient.Lib ByteReader

/-! ## 1. Alignment -/

/-- `pad_len` (`utils/align.h`): the padding that makes `size` a multiple of
`alignment`. -/
def padLen (size alignment : ℕ) : ℕ :=
  let remainder := size % alignment
  if remainder ≠ 0 then alignment - remainder else 0

theorem padLen_lt {a : ℕ} (ha : 0 < a) (n : ℕ) : padLen n a < a := by
  unfold padLen
  dsimp only
  split_ifs <;> omega

theorem dvd_add_padLen {a : ℕ} (ha : 0 < a) (n : ℕ) : a ∣ n + padLen n a := by
  unfold padLen
  dsimp only
  have hlt := Nat.mod_lt n ha
  split_ifs with h
  · have : n + (a - n % a) = a * (n / a + 1) := by
      have := Nat.div_add_mod n a
      rw [Nat.mul_add, Nat.mul_one]
      omega
    exact this ▸ Dvd.intro _ rfl
  · exact Nat.dvd_of_mod_eq_zero (by simpa using h)

theorem padLen_of_dvd {a n : ℕ} (h : a ∣ n) : padLen n a = 0 := by
  simp [padLen, Nat.mod_eq_zero_of_dvd h]

/-! ## 2. The code -/

/-- The `status_t` values the ESP and IPsec code returns besides `SUCCESS`, which is
the `ok` side of the results below. -/
inductive Status
  | failed
  | notFound
  | parseError
  | verifyError
  deriving DecidableEq, Repr

/-- `IPPROTO_IPIP`. -/
def ipprotoIpip : UInt8 := 4
/-- `IPPROTO_IPV6`. -/
def ipprotoIpv6 : UInt8 := 41
/-- `IPPROTO_NONE`. -/
def ipprotoNone : UInt8 := 59

/-- `private_esp_packet_t`: the outer addresses and bytes of the packet, the inner
packet and the ESP next header. -/
structure EspPacket where
  src : Host
  dst : Host
  data : List UInt8
  payload : Option IpPacket
  nextHeader : UInt8

/-- `esp_packet_create_from_packet`: a received packet, not yet decrypted. -/
def espPacketCreateFromPacket (src dst : Host) (data : List UInt8) : EspPacket where
  src := src
  dst := dst
  data := data
  payload := none
  nextHeader := ipprotoNone

/-- `esp_packet_create_from_payload`: a packet to encrypt, tunnelling an IPv4 or IPv6
packet. -/
def espPacketCreateFromPayload (src dst : Host) (payload : Option IpPacket) : EspPacket where
  src := src
  dst := dst
  data := []
  payload := payload
  nextHeader := match payload with
    | some p => if p.version = 4 then ipprotoIpip else ipprotoIpv6
    | none => ipprotoNone

namespace EspPacket

/-- The bytes `encrypt` protects: the inner packet's encoding, if there is one. -/
def encoding (p : EspPacket) : List UInt8 :=
  match p.payload with
  | some ip => ip.packet
  | none => []

@[simp] theorem encoding_createFromPayload (src dst : Host) (ip : IpPacket) :
    (espPacketCreateFromPayload src dst (some ip)).encoding = ip.packet := rfl

@[simp] theorem nextHeader_createFromPayload (src dst : Host) (ip : IpPacket) :
    (espPacketCreateFromPayload src dst (some ip)).nextHeader =
      if ip.version = 4 then ipprotoIpip else ipprotoIpv6 := rfl

/-- `parse_header`: the SPI, when the packet holds an SPI and a sequence number. -/
def parseHeader (p : EspPacket) : Option UInt32 := do
  let spi ← readU32 p.data
  let _ ← readU32 spi.2
  some spi.1

/-- The sequence number field, which `parse_header` reads after the SPI. -/
def seqno (p : EspPacket) : Option UInt32 :=
  (readU32 (p.data.drop 4)).map (·.1)

end EspPacket

/-- `check_padding`: byte `i` of the padding is `i + 1`. -/
def checkPadding (padding : List UInt8) : Bool :=
  (List.range padding.length).all fun i => padding.getD i 0 = UInt8.ofNat (i + 1)

/-- `generate_padding`: `n` bytes `1, 2, …, n`. -/
def generatePadding (n : ℕ) : List UInt8 :=
  (List.range n).map fun i => UInt8.ofNat (i + 1)

/-- `remove_padding`: next header and pad length off the back, then the padding,
and the inner packet from what is left. -/
def removePadding (plaintext : List UInt8) : Option (IpPacket × UInt8) := do
  let nextHeader ← readU8End plaintext
  let padLength ← readU8End nextHeader.2
  let padding ← readDataEnd padLength.1.toNat padLength.2
  if !checkPadding padding.1 then none
  else
    let payload ← ipPacketCreate padding.2
    some (payload, nextHeader.1)

/-- The length checks at the start of `decrypt`: SPI, sequence number and IV off the
front, the ICV off the back, and whole cipher blocks left between them. The
sequence number, IV, ciphertext and ICV. -/
def readEsp (aead : Aead) (data : List UInt8) :
    Option (UInt32 × List UInt8 × List UInt8 × List UInt8) := do
  let spi ← readU32 data
  let seq ← readU32 spi.2
  let iv ← readData aead.ivSize seq.2
  let icv ← readDataEnd aead.icvSize iv.2
  if icv.2.length % aead.blockSize ≠ 0 then none
  else some (seq.1, iv.1, icv.2, icv.1)

/-- The padding `encrypt` gives a plaintext of `plainlen` bytes: up to the cipher's
block size, and then so that the ICV behind IV and plaintext starts on a 4-byte
boundary. -/
def paddingLength (aead : Aead) (plainlen : ℕ) : ℕ :=
  let paddingLen := padLen plainlen aead.blockSize
  -- ICV must be on a 4-byte boundary
  paddingLen + padLen (aead.ivSize + plainlen + paddingLen) 4

/-- The plaintext `encrypt` writes: payload, padding, pad length and next header. -/
def espPlaintext (aead : Aead) (payload : List UInt8) (nextHeader : UInt8) : List UInt8 :=
  let paddingLen := paddingLength aead (payload.length + 2)
  payload ++ generatePadding paddingLen ++ [UInt8.ofNat paddingLen, nextHeader]

namespace EspPacket

/-- `decrypt` with the inbound context of the SA: the inner packet and the next
header, and the context, whose window records the sequence number once the ICV
verified, whether or not the padding then parses. -/
def decrypt (p : EspPacket) (c : EspContext) : Except Status (IpPacket × UInt8) × EspContext :=
  match readEsp c.aead p.data with
  | none => (.error .parseError, c)
  | some (seq, iv, ciphertext, icv) =>
    if !c.verifySeqno seq then (.error .verifyError, c)
    else
      -- the ICV is decrypted with the ciphertext; the associated data is SPI and number
      match c.aead.decrypt (ciphertext ++ icv) (p.data.take 8) iv with
      | none => (.error .failed, c)
      | some plaintext =>
        let c := c.setAuthenticatedSeqno seq
        match removePadding plaintext with
        | none => (.error .parseError, c)
        | some r => (.ok r, c)

/-- `encrypt` with the outbound context of the SA: the bytes of the ESP packet, and
the context, whose counter moved on even when a later step failed. -/
def encrypt (p : EspPacket) (c : EspContext) (spi : UInt32) : Except Status (List UInt8) × EspContext :=
  match c.nextSeqno with
  | none => (.error .failed, c)
  | some (nextSeqno, c) =>
    match c.aead.ivGen with
    | none => (.error .notFound, c)
    | some getIv =>
      -- plaintext = payload, padding, pad_length, next_header
      match getIv nextSeqno c.aead.ivSize with
      | none => (.error .failed, c)
      | some iv =>
        let aad := u32Bytes spi ++ u32Bytes nextSeqno
        match c.aead.encrypt (espPlaintext c.aead p.encoding p.nextHeader) aad iv with
        | none => (.error .failed, c)
        | some encrypted => (.ok (aad ++ iv ++ encrypted), c)

end EspPacket

/-! ## 3. Padding -/

@[simp] theorem length_generatePadding (n : ℕ) : (generatePadding n).length = n := by
  simp [generatePadding]

/-- The padding `check_padding` accepts is exactly the one `generate_padding` writes. -/
theorem checkPadding_iff {padding : List UInt8} :
    checkPadding padding = true ↔ padding = generatePadding padding.length := by
  unfold checkPadding
  rw [List.all_eq_true]
  constructor
  · intro h
    refine List.ext_getElem (by simp) fun i hi _ => ?_
    have hi' := h i (List.mem_range.mpr hi)
    simp only [List.getD_eq_getElem?_getD, List.getElem?_eq_getElem hi, Option.getD_some,
      decide_eq_true_eq] at hi'
    simp [generatePadding, hi']
  · intro h i hi
    rw [List.mem_range] at hi
    rw [h]
    simp [generatePadding, List.getD_eq_getElem?_getD, hi]

/-- `remove_padding` undoes the plaintext `encrypt` writes, when the pad length fits its
byte. -/
theorem removePadding_append (payload : List UInt8) {k : ℕ} (hk : k < 256) (nextHeader : UInt8) :
    removePadding (payload ++ generatePadding k ++ [UInt8.ofNat k, nextHeader]) =
      (ipPacketCreate payload).map (·, nextHeader) := by
  have hk' : (UInt8.ofNat k).toNat = k := by
    rw [UInt8.toNat_ofNat', Nat.mod_eq_of_lt hk]
  have hcheck : checkPadding (generatePadding k) = true := by
    rw [checkPadding_iff, length_generatePadding]
  rw [show payload ++ generatePadding k ++ [UInt8.ofNat k, nextHeader] =
      (payload ++ generatePadding k ++ [UInt8.ofNat k]) ++ [nextHeader] by simp]
  simp only [removePadding, readU8End_append, Option.bind_eq_bind, Option.bind_some, hk',
    readDataEnd_append _ (length_generatePadding k), hcheck, Bool.not_true, Bool.false_eq_true,
    if_false]
  cases ipPacketCreate payload <;> rfl

/-- The padding length, as a multiple of the block size and 4, and its bound: the
arithmetic of the two `pad_len` calls of `encrypt`. -/
theorem paddingLength_spec {aead : Aead} (hb : 0 < aead.blockSize)
    (hbv : (aead.blockSize ∣ 4 ∧ aead.blockSize ∣ aead.ivSize) ∨ (4 ∣ aead.blockSize ∧ 4 ∣ aead.ivSize))
    (n : ℕ) :
    paddingLength aead n < aead.blockSize + 3 ∧ aead.blockSize ∣ n + paddingLength aead n ∧
      4 ∣ aead.ivSize + (n + paddingLength aead n) := by
  unfold paddingLength
  dsimp only
  have hblock := dvd_add_padLen hb n
  have hword := dvd_add_padLen (show 0 < 4 by omega) (aead.ivSize + n + padLen n aead.blockSize)
  have hlt := padLen_lt hb n
  have hlt4 := padLen_lt (show 0 < 4 by omega) (aead.ivSize + n + padLen n aead.blockSize)
  refine ⟨by omega, ?_, by omega⟩
  rcases hbv with ⟨hb4, hbiv⟩ | ⟨h4b, h4iv⟩
  · -- the block divides 4, so the word padding keeps whole blocks, and the IV is whole blocks
    have := Nat.dvd_trans hb4 hword
    rw [show aead.ivSize + n + padLen n aead.blockSize +
        padLen (aead.ivSize + n + padLen n aead.blockSize) 4 =
        aead.ivSize + (n + (padLen n aead.blockSize +
        padLen (aead.ivSize + n + padLen n aead.blockSize) 4)) by omega] at this
    exact (Nat.dvd_add_right hbiv).mp this
  · -- 4 divides the block and the IV, so no word padding is needed
    have h4 : 4 ∣ aead.ivSize + n + padLen n aead.blockSize := by
      have := Nat.dvd_trans h4b hblock
      omega
    rw [padLen_of_dvd h4, Nat.add_zero]
    exact hblock

/-! ## 4. Reading the wire format -/

/-- `decrypt`'s length checks on the packet `encrypt` writes. -/
theorem readEsp_wire {aead : Aead} (spi seq : UInt32) {iv encrypted : List UInt8}
    (hiv : iv.length = aead.ivSize) (hicv : aead.icvSize ≤ encrypted.length)
    (hblock : aead.blockSize ∣ encrypted.length - aead.icvSize) :
    readEsp aead (u32Bytes spi ++ u32Bytes seq ++ iv ++ encrypted) =
      some (seq, iv, encrypted.take (encrypted.length - aead.icvSize),
        encrypted.drop (encrypted.length - aead.icvSize)) := by
  have hicv' : ¬encrypted.length < aead.icvSize := by omega
  have hmod : (encrypted.take (encrypted.length - aead.icvSize)).length % aead.blockSize = 0 := by
    rw [List.length_take, min_eq_left (Nat.sub_le _ _)]
    exact Nat.mod_eq_zero_of_dvd hblock
  simp only [readEsp, List.append_assoc, readU32_append, Option.bind_eq_bind, Option.bind_some,
    readData_append hiv, readDataEnd, hicv', if_false, hmod, ne_eq, not_true_eq_false]

/-- The sequence number `decrypt` reads is the packet's sequence number field. -/
theorem seqno_of_readEsp {aead : Aead} {p : EspPacket} {seq : UInt32} {iv ciphertext icv : List UInt8}
    (h : readEsp aead p.data = some (seq, iv, ciphertext, icv)) : p.seqno = some seq := by
  unfold readEsp at h
  obtain ⟨⟨spi, r⟩, hspi, h⟩ := Option.bind_eq_some_iff.mp h
  obtain ⟨⟨seq', r'⟩, hseq, h⟩ := Option.bind_eq_some_iff.mp h
  obtain ⟨_, -, h⟩ := Option.bind_eq_some_iff.mp h
  obtain ⟨_, -, h⟩ := Option.bind_eq_some_iff.mp h
  split_ifs at h
  cases h
  rw [EspPacket.seqno, ← readU32_eq_some hspi, hseq]
  rfl

/-! ## 5. What `encrypt` and `decrypt` do -/

/-- An AEAD as `esp_packet.c` relies on it: `decrypt` inverts `encrypt` for the same
associated data and IV, the ICV has `icv_size` bytes, and the IV generator fills the
`iv_size` bytes it is given. -/
structure Aead.Sound (aead : Aead) : Prop where
  decrypt_of_encrypt : ∀ {plain assoc iv encrypted},
    aead.encrypt plain assoc iv = some encrypted → aead.decrypt encrypted assoc iv = some plain
  length_encrypt : ∀ {plain assoc iv encrypted},
    aead.encrypt plain assoc iv = some encrypted → encrypted.length = plain.length + aead.icvSize
  length_iv : ∀ {getIv}, aead.ivGen = some getIv →
    ∀ {seq size iv}, getIv seq size = some iv → iv.length = size

/-- An AEAD to run the code with: the plaintext XORed with a key byte, and the key
byte as a one-byte ICV that decryption checks; the IV is the sequence number. -/
def keyedAead (key : UInt8) (blockSize ivSize : ℕ) : Aead where
  ivSize := ivSize
  icvSize := 1
  blockSize := blockSize
  encrypt plain _ _ := some (plain.map (· ^^^ key) ++ [key])
  decrypt encrypted _ _ :=
    match readU8End encrypted with
    | some (icv, ciphertext) => if icv = key then some (ciphertext.map (· ^^^ key)) else none
    | none => none
  ivGen := some fun seq size => some ((u32Bytes seq ++ List.replicate size 0).take size)

/-- Its decryption inverts its encryption and accepts nothing else. -/
theorem keyedAead_decrypt_iff (key : UInt8) (blockSize ivSize : ℕ) {encrypted assoc iv plain : List UInt8} :
    (keyedAead key blockSize ivSize).decrypt encrypted assoc iv = some plain ↔
      (keyedAead key blockSize ivSize).encrypt plain assoc iv = some encrypted := by
  simp only [keyedAead, Option.some.injEq]
  constructor
  · intro h
    split at h
    · rename_i icv ciphertext hread
      split at h
      · rename_i hicv
        cases h
        rw [readU8End_eq_some hread, hicv]
        simp [List.map_map, Function.comp_def]
      · cases h
    · cases h
  · rintro rfl
    simp [readU8End_append, List.map_map, Function.comp_def]

theorem keyedAead_sound (key : UInt8) (blockSize ivSize : ℕ) : (keyedAead key blockSize ivSize).Sound where
  decrypt_of_encrypt h := (keyedAead_decrypt_iff key blockSize ivSize).mpr h
  length_encrypt h := by
    simp only [keyedAead, Option.some.injEq] at h
    simp [← h, keyedAead]
  length_iv h := by
    simp only [keyedAead, Option.some.injEq] at h
    subst h
    intro seq size iv hiv
    simp only [Option.some.injEq] at hiv
    simp [← hiv]

/-- **What a successful `encrypt` did**: it took the next sequence number, an IV from
the generator, and encrypted the padded plaintext with SPI and number as associated
data; the packet is SPI, number, IV and the AEAD's output. -/
theorem EspPacket.encrypt_eq_ok {p : EspPacket} {c c' : EspContext} {spi : UInt32}
    {wire : List UInt8} (h : p.encrypt c spi = (.ok wire, c')) :
    ∃ getIv iv encrypted, c.nextSeqno = some (c'.lastSeqno, c') ∧ c'.aead = c.aead ∧
      c.aead.ivGen = some getIv ∧ getIv c'.lastSeqno c.aead.ivSize = some iv ∧
      c.aead.encrypt (espPlaintext c.aead p.encoding p.nextHeader)
        (u32Bytes spi ++ u32Bytes c'.lastSeqno) iv = some encrypted ∧
      wire = u32Bytes spi ++ u32Bytes c'.lastSeqno ++ iv ++ encrypted := by
  unfold encrypt at h
  split at h
  · cases h
  rename_i seq c₁ hnext
  -- the counter moved on and nothing else changed
  have hc₁ : c₁.lastSeqno = seq ∧ c₁.aead = c.aead := by
    unfold EspContext.nextSeqno at hnext
    split at hnext
    · cases hnext
    · cases hnext
      exact ⟨rfl, rfl⟩
  split at h
  · cases h
  rename_i getIv hgen
  split at h
  · cases h
  rename_i iv hiv
  dsimp only at h
  split at h
  · cases h
  rename_i encrypted henc
  cases h
  obtain ⟨rfl, haead⟩ := hc₁
  rw [haead] at hgen hiv henc
  exact ⟨getIv, iv, encrypted, hnext, haead, hgen, hiv, henc, rfl⟩

/-- **What a successful `decrypt` did**: the lengths parsed, the sequence number was
fresh, the ICV verified under the context's AEAD, the padding was right, and the
window recorded the number. -/
theorem EspPacket.decrypt_eq_ok {p : EspPacket} {c c' : EspContext} {r : IpPacket × UInt8}
    (h : p.decrypt c = (.ok r, c')) :
    ∃ seq iv ciphertext icv plaintext,
      readEsp c.aead p.data = some (seq, iv, ciphertext, icv) ∧ c.verifySeqno seq = true ∧
      c.aead.decrypt (ciphertext ++ icv) (p.data.take 8) iv = some plaintext ∧
      removePadding plaintext = some r ∧ c' = c.setAuthenticatedSeqno seq := by
  unfold decrypt at h
  split at h
  · cases h
  rename_i seq iv ciphertext icv hread
  split at h
  · cases h
  rename_i hverify
  split at h
  · cases h
  rename_i plaintext hdec
  split at h
  · cases h
  rename_i r' hpad
  cases h
  exact ⟨seq, iv, ciphertext, icv, plaintext, hread, by simpa using hverify, hdec, hpad, rfl⟩

/-- `decrypt` changes the context as the receiver of `EspContext.receive`: the number
it read is recorded exactly when it was fresh and its ICV verified. -/
theorem EspPacket.decrypt_context (p : EspPacket) (c : EspContext) :
    (p.decrypt c).2 = match readEsp c.aead p.data with
      | none => c
      | some (seq, iv, ciphertext, icv) =>
        (c.receive seq (c.aead.decrypt (ciphertext ++ icv) (p.data.take 8) iv).isSome).1 := by
  unfold decrypt EspContext.receive
  split
  · rfl
  rename_i seq iv ciphertext icv _
  by_cases hverify : c.verifySeqno seq = true
  · rw [if_neg (by simp [hverify])]
    cases c.aead.decrypt (ciphertext ++ icv) (p.data.take 8) iv with
    | none => simp
    | some plaintext =>
      simp only [hverify, Option.isSome_some, Bool.and_self, if_true]
      split <;> rfl
  · rw [if_pos (by simpa using hverify)]
    simp [hverify]

/-! ## 6. The round trip -/

section RoundTrip

variable {aead : Aead}

/-- Decrypting a packet framed as `encrypt` frames it, with the AEAD's output for a
plaintext of whole blocks and a fresh number, comes to `remove_padding` of that
plaintext. -/
theorem EspPacket.decrypt_wire (hsound : aead.Sound) {c : EspContext} (hc : c.aead = aead)
    {spi seq : UInt32} {iv plaintext encrypted : List UInt8} (hiv : iv.length = aead.ivSize)
    (henc : aead.encrypt plaintext (u32Bytes spi ++ u32Bytes seq) iv = some encrypted)
    (hblock : aead.blockSize ∣ plaintext.length) (hfresh : c.verifySeqno seq = true)
    (src dst : Host) :
    (espPacketCreateFromPacket src dst (u32Bytes spi ++ u32Bytes seq ++ iv ++ encrypted)).decrypt c =
      (match removePadding plaintext with
        | none => .error .parseError
        | some r => .ok r, c.setAuthenticatedSeqno seq) := by
  have hlen := hsound.length_encrypt henc
  have hread := readEsp_wire spi seq hiv (show aead.icvSize ≤ encrypted.length by omega)
    (by rwa [hlen, Nat.add_sub_cancel])
  -- the associated data is the first 8 bytes, and ciphertext and ICV join up again
  have haad : (u32Bytes spi ++ u32Bytes seq ++ iv ++ encrypted).take 8 = u32Bytes spi ++ u32Bytes seq := by
    rw [List.append_assoc, List.take_left' (by simp)]
  unfold decrypt
  simp only [espPacketCreateFromPacket, hc, hread, hfresh, Bool.not_true, Bool.false_eq_true,
    if_false, List.take_append_drop, haad, hsound.decrypt_of_encrypt henc]
  cases removePadding plaintext <;> rfl

/-- **The ESP round trip.** An IP packet accepted by `ip_packet_create`, encrypted
under an outbound context, decrypts under an inbound context with the same AEAD for
which its sequence number is fresh: the inner packet comes back whole, with next
header `IPPROTO_IPIP` or `IPPROTO_IPV6`, and the window records the number. The
plaintext is a whole number of blocks and ends where the ICV starts on a 4-byte
boundary. This needs the block size to divide `4` and the IV size or `4` to divide
both, the two paddings to fit the pad length byte (a block of at most 253 bytes), and
an IPv4 packet's encoding to hold its 20-byte header. -/
theorem decrypt_encrypt {data : List UInt8} {ip : IpPacket} (hip : ipPacketCreate data = some ip)
    (hv4 : ip.version = 4 → 20 ≤ ip.packet.length) (hsound : aead.Sound)
    (hb : 0 < aead.blockSize) (hb253 : aead.blockSize ≤ 253)
    (hbv : (aead.blockSize ∣ 4 ∧ aead.blockSize ∣ aead.ivSize) ∨ (4 ∣ aead.blockSize ∧ 4 ∣ aead.ivSize))
    {co co' ci : EspContext} (hco : co.aead = aead) (hci : ci.aead = aead) (src dst : Host)
    (spi : UInt32) {wire : List UInt8}
    (henc : (espPacketCreateFromPayload src dst (some ip)).encrypt co spi = (.ok wire, co'))
    (hfresh : ci.verifySeqno co'.lastSeqno = true) (src' dst' : Host) :
    (espPacketCreateFromPacket src' dst' wire).decrypt ci =
        (.ok (ip, if ip.version = 4 then ipprotoIpip else ipprotoIpv6),
          ci.setAuthenticatedSeqno co'.lastSeqno) ∧
      ∃ plainlen, wire.length = 8 + aead.ivSize + plainlen + aead.icvSize ∧
        aead.blockSize ∣ plainlen ∧ 4 ∣ aead.ivSize + plainlen := by
  obtain ⟨getIv, iv, encrypted, -, -, hgen, hiv, hencr, rfl⟩ := EspPacket.encrypt_eq_ok henc
  simp only [EspPacket.encoding_createFromPayload, EspPacket.nextHeader_createFromPayload] at hencr
  subst hco
  obtain ⟨hk, hblock, hword⟩ := paddingLength_spec hb hbv (ip.packet.length + 2)
  have hplain : (espPlaintext co.aead ip.packet (if ip.version = 4 then ipprotoIpip else ipprotoIpv6)).length =
      ip.packet.length + 2 + paddingLength co.aead (ip.packet.length + 2) := by
    simp [espPlaintext]
    omega
  have hlen := hsound.length_encrypt hencr
  refine ⟨?_, ip.packet.length + 2 + paddingLength co.aead (ip.packet.length + 2), ?_, hblock, hword⟩
  · -- decrypt comes to remove_padding, which gives back the packet and its next header
    rw [EspPacket.decrypt_wire hsound hci (hsound.length_iv hgen hiv) hencr (hplain ▸ hblock) hfresh,
      espPlaintext, removePadding_append _ (by omega), ipPacketCreate_encoding hip hv4]
    rfl
  · simp only [List.length_append, length_u32Bytes, hsound.length_iv hgen hiv, hlen, hplain]
    omega

/-- An ICMP echo request from `10.0.0.1` to `10.0.0.2`. -/
def icmpEchoRequest : List UInt8 :=
  [0x45, 0, 0, 28, 0, 1, 0, 0, 64, 1, 0, 0, 10, 0, 0, 1, 10, 0, 0, 2, 8, 0, 0xf7, 0xfe, 0, 1, 0, 0]

theorem decrypt_encrypt_icmp :
    ∃ ip wire co', ipPacketCreate icmpEchoRequest = some ip ∧
      (espPacketCreateFromPayload ⟨.inet, [192, 0, 2, 1], 0⟩ ⟨.inet, [198, 51, 100, 1], 0⟩ (some ip)).encrypt
        (espContextCreate (keyedAead 0x5a 16 16) false) 0xc0ffee01 = (.ok wire, co') ∧
      (espPacketCreateFromPacket ⟨.inet, [192, 0, 2, 1], 0⟩ ⟨.inet, [198, 51, 100, 1], 0⟩ wire).decrypt
        (espContextCreate (keyedAead 0x5a 16 16) true) =
        (.ok (ip, ipprotoIpip), (espContextCreate (keyedAead 0x5a 16 16) true).setAuthenticatedSeqno co'.lastSeqno) := by
  refine ⟨_, _, _, rfl, rfl, ?_⟩
  exact And.left (@decrypt_encrypt (keyedAead 0x5a 16 16) icmpEchoRequest _ rfl (by decide) (keyedAead_sound _ _ _)
    (by decide) (by decide) (by decide) (espContextCreate (keyedAead 0x5a 16 16) false) _
    (espContextCreate (keyedAead 0x5a 16 16) true) rfl rfl _ _ 0xc0ffee01 _ rfl (by decide) _ _)

/-- The same request with a total length field of `0`, which `ip_packet_create`
accepts and cuts to nothing. -/
def icmpZeroLength : List UInt8 :=
  [0x45, 0, 0, 0, 0, 1, 0, 0, 64, 1, 0, 0, 10, 0, 0, 1, 10, 0, 0, 2, 8, 0, 0xf7, 0xfe, 0, 1, 0, 0]

/-- The round trip fails for a block size that divides `4` but not the IV size (block
size 2, IV size 1), and for an IPv4 packet whose stated total length is below 20:
with a sound AEAD that accepts nothing but its own output, `encrypt` succeeds with a
fresh number and `decrypt` answers `PARSE_ERROR`. -/
theorem decrypt_encrypt_fails :
    ((keyedAead 0x5a 2 1).Sound ∧
      (∀ e a iv plain, (keyedAead 0x5a 2 1).decrypt e a iv = some plain ↔
        (keyedAead 0x5a 2 1).encrypt plain a iv = some e) ∧
      (keyedAead 0x5a 2 1).blockSize ∣ 4 ∧ (keyedAead 0x5a 2 1).blockSize ≤ 253 ∧
      ∃ ip wire co', ipPacketCreate icmpEchoRequest = some ip ∧
        (espPacketCreateFromPayload ⟨.inet, [192, 0, 2, 1], 0⟩ ⟨.inet, [198, 51, 100, 1], 0⟩ (some ip)).encrypt
          (espContextCreate (keyedAead 0x5a 2 1) false) 0xc0ffee01 = (.ok wire, co') ∧
        (espContextCreate (keyedAead 0x5a 2 1) true).verifySeqno co'.lastSeqno = true ∧
        ((espPacketCreateFromPacket ⟨.inet, [192, 0, 2, 1], 0⟩ ⟨.inet, [198, 51, 100, 1], 0⟩ wire).decrypt
          (espContextCreate (keyedAead 0x5a 2 1) true)).1 = .error .parseError) ∧
    ((keyedAead 0x5a 1 8).Sound ∧
      (∀ e a iv plain, (keyedAead 0x5a 1 8).decrypt e a iv = some plain ↔
        (keyedAead 0x5a 1 8).encrypt plain a iv = some e) ∧
      (keyedAead 0x5a 1 8).blockSize ∣ 4 ∧ (keyedAead 0x5a 1 8).blockSize ≤ 253 ∧
      ∃ ip wire co', ipPacketCreate icmpZeroLength = some ip ∧
        (espPacketCreateFromPayload ⟨.inet, [192, 0, 2, 1], 0⟩ ⟨.inet, [198, 51, 100, 1], 0⟩ (some ip)).encrypt
          (espContextCreate (keyedAead 0x5a 1 8) false) 0xc0ffee01 = (.ok wire, co') ∧
        (espContextCreate (keyedAead 0x5a 1 8) true).verifySeqno co'.lastSeqno = true ∧
        ((espPacketCreateFromPacket ⟨.inet, [192, 0, 2, 1], 0⟩ ⟨.inet, [198, 51, 100, 1], 0⟩ wire).decrypt
          (espContextCreate (keyedAead 0x5a 1 8) true)).1 = .error .parseError) :=
  ⟨⟨keyedAead_sound _ _ _, fun _ _ _ _ => keyedAead_decrypt_iff _ _ _, by decide, by decide,
      _, _, _, rfl, rfl, by decide, rfl⟩,
    ⟨keyedAead_sound _ _ _, fun _ _ _ _ => keyedAead_decrypt_iff _ _ _, by decide, by decide,
      _, _, _, rfl, rfl, by decide, rfl⟩⟩

end RoundTrip

end VpnClient.Ipsec
