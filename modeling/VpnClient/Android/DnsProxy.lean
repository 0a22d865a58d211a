import VpnClient.Ipsec.IpPacket
import VpnClient.Lib.OrderedMap

/-!
# The DNS proxy's hostname filter

`android_dns_proxy.c` of the Android app: while the VPN comes up, DNS queries are sent
through a proxy socket, but only those for the hostnames registered with
`add_hostname`. `extract_hostname` takes the first name of the question section: it
copies the bytes after the first length byte up to the first NUL (`strndup`), then walks
the copy from length byte to length byte and turns each into a dot.

On a name encoded as RFC 1035 prescribes, with labels of 1 to 63 bytes and no NUL in
them, this gives the labels joined by dots, whatever follows the name
(`extractHostname_qname`). On any input the walk writes only inside the copy
(`extractLoop_eq`, `lt_length_of_mem_labelWalk`). `check_hostname` then lets a packet
through when no hostname is registered, or when it is a standard query whose name is
registered (`checkHostname_iff`), and `handle` forwards only such packets
(`handle_forwards`).
-/

namespace VpnClient.Android.DnsProxy

open VpnClient.Lib ByteReader VpnClient.Ipsec

/-! ## `extract_hostname` -/

/-- The byte of a dot. -/
def dot : UInt8 := 0x2e

/-- The loop of `extract_hostname`: while `pos` is before the end of the copy, the
length byte there becomes a dot and `pos` jumps over the label it gave. -/
def extractLoop (hostname : List UInt8) (pos : ℕ) : List UInt8 :=
  if h : pos < hostname.length then
    let label := hostname[pos]
    extractLoop (hostname.set pos dot) (pos + 1 + label.toNat)
  else hostname
termination_by hostname.length - pos
decreasing_by
  rw [List.length_set]
  omega

/-- `extract_hostname`: `none` stands for `NULL`, on empty data and on data of more than
255 bytes. -/
def extractHostname (data : List UInt8) : Option (List UInt8) :=
  match data with
  | [] => none
  | label :: rest =>
    if data.length > 255 then none
    else
      -- `strndup` stops at the first NUL, the root label at the end of the name
      let hostname := rest.takeWhile (· != 0)
      some (extractLoop hostname label.toNat)

/-! ## `check_hostname` and `handle` -/

/-- `sizeof(dns_header_t)`. -/
def dnsHeaderSize : ℕ := 12

/-- `DNS_QR_MASK`. -/
def dnsQrMask : UInt16 := 0x8000

/-- `DNS_OPCODE_MASK`. -/
def dnsOpcodeMask : UInt16 := 0x7800

/-- The header checks of `check_hostname`: a query (`QR` clear) of the standard opcode
with at least one question. -/
def isQuery (data : List UInt8) : Bool :=
  let flags := u16OfBytes (data.getD 2 0) (data.getD 3 0)
  flags &&& dnsQrMask = 0 && flags &&& dnsOpcodeMask = 0 && u16OfBytes (data.getD 4 0) (data.getD 5 0) != 0

/-- `private_android_dns_proxy_t` as the filter reads it: the hash table of the registered
hostnames, each the key of itself. The table of proxy sockets is left out. -/
structure State where
  hostnames : List (List UInt8 × List UInt8)

/-- `android_dns_proxy_create`: no hostname registered. -/
def create : State := ⟨[]⟩

/-- `add_hostname`. -/
def addHostname (proxy : State) (hostname : List UInt8) : State :=
  ⟨OrderedMap.put proxy.hostnames hostname hostname⟩

/-- `check_hostname`. -/
def checkHostname (proxy : State) (data : List UInt8) : Bool :=
  if proxy.hostnames.length = 0 then true
  else if data.length < dnsHeaderSize then false
  else if isQuery data then
    match extractHostname (data.drop dnsHeaderSize) with
    | some hostname => (proxy.hostnames.lookup hostname).isSome
    | none => false
  else false

/-- `handle`: whether the packet is taken and sent through a proxy socket. The payload
is read after the UDP header; `socketOk` says whether the socket of the packet's source
exists or could be created. -/
def handle (proxy : State) (socketOk : Bool) (packet : IpPacket) : Bool :=
  if packet.nextHeader ≠ ipprotoUdp then false
  else if packet.dst.port ≠ 53 then false
  else if !checkHostname proxy (packet.payload.drop 8) then false
  else socketOk

/-! ## Names as RFC 1035 encodes them -/

/-- A name in a question: each label after its length byte, then the zero length of the
root (RFC 1035, 3.1). -/
def qname (labels : List (List UInt8)) : List UInt8 :=
  labels.flatMap (fun l => UInt8.ofNat l.length :: l) ++ [0]

/-- A label of a name: 1 to 63 bytes, none of them NUL. -/
def GoodLabel (l : List UInt8) : Prop := 1 ≤ l.length ∧ l.length ≤ 63 ∧ 0 ∉ l

instance : DecidablePred GoodLabel := fun _ => inferInstanceAs (Decidable (_ ∧ _ ∧ _))

/-- One turn of the walk: the length byte after a prefix becomes a dot, and the walk
moves past the label it gave. -/
theorem extractLoop_step (p rest : List UInt8) (b : UInt8) :
    extractLoop (p ++ b :: rest) p.length = extractLoop (p ++ dot :: rest) (p.length + 1 + b.toNat) := by
  rw [extractLoop, dif_pos (by simp)]
  simp

/-- The walk turns every length byte after the first label into a dot. -/
theorem extractLoop_labels (p : List UInt8) :
    ∀ {ls : List (List UInt8)}, (∀ l ∈ ls, l.length < 256) →
      extractLoop (p ++ ls.flatMap fun l => UInt8.ofNat l.length :: l) p.length = p ++ ls.flatMap (dot :: ·)
  | [], _ => by
    simp only [List.flatMap_nil, List.append_nil]
    rw [extractLoop, dif_neg (Nat.lt_irrefl _)]
  | l :: ls, hls => by
    have hlen : (UInt8.ofNat l.length).toNat = l.length := by
      have := hls l List.mem_cons_self
      rw [UInt8.toNat_ofNat']
      omega
    have hpos : p.length + 1 + (UInt8.ofNat l.length).toNat = (p ++ dot :: l).length := by
      rw [hlen, List.length_append, List.length_cons]
      omega
    rw [List.flatMap_cons, List.flatMap_cons, List.cons_append, extractLoop_step, hpos, ← List.cons_append,
      ← List.append_assoc, extractLoop_labels (p ++ dot :: l) (fun m hm => hls m (List.mem_cons_of_mem l hm)),
      List.append_assoc]

theorem toNat_ofNat_length {l : List UInt8} (h : l.length < 256) : (UInt8.ofNat l.length).toNat = l.length := by
  rw [UInt8.toNat_ofNat']
  omega

/-- No byte of encoded labels is NUL. -/
theorem ne_zero_of_mem_labels {ls : List (List UInt8)} (hgood : ∀ x ∈ ls, GoodLabel x) :
    ∀ b ∈ ls.flatMap (fun l => UInt8.ofNat l.length :: l), b ≠ 0 := by
  intro b hb
  obtain ⟨x, hx, hbx⟩ := List.mem_flatMap.mp hb
  obtain ⟨h1, h63, h0⟩ := hgood x hx
  rcases List.mem_cons.mp hbx with rfl | hbx
  · -- a length byte: between 1 and 63
    intro he
    have := congrArg UInt8.toNat he
    rw [toNat_ofNat_length (by omega), UInt8.toNat_zero] at this
    omega
  · rintro rfl
    exact h0 hbx

/-- **A name encoded as RFC 1035 prescribes comes out with dots**, whatever follows it
in the packet. -/
theorem extractHostname_qname {l : List UInt8} {ls : List (List UInt8)} (hgood : ∀ x ∈ l :: ls, GoodLabel x)
    (r : List UInt8) (hlen : (qname (l :: ls) ++ r).length ≤ 255) :
    extractHostname (qname (l :: ls) ++ r) = some (l ++ ls.flatMap (dot :: ·)) := by
  have hl : GoodLabel l := hgood l List.mem_cons_self
  have hls : ∀ x ∈ ls, GoodLabel x := fun x hx => hgood x (List.mem_cons_of_mem l hx)
  -- the copy runs up to the root label: no byte before it is NUL
  have hnz : ∀ b ∈ l ++ ls.flatMap (fun l => UInt8.ofNat l.length :: l), (b != 0) = true := by
    intro b hb
    rcases List.mem_append.mp hb with hb | hb
    · simpa using fun he : b = 0 => hl.2.2 (he ▸ hb)
    · simpa using ne_zero_of_mem_labels hls b hb
  have hcopy : (l ++ ls.flatMap (fun l => UInt8.ofNat l.length :: l) ++ 0 :: r).takeWhile (· != 0) =
      l ++ ls.flatMap (fun l => UInt8.ofNat l.length :: l) := by
    rw [List.takeWhile_append_of_pos hnz]
    simp
  have hq : qname (l :: ls) ++ r =
      UInt8.ofNat l.length :: (l ++ ls.flatMap (fun l => UInt8.ofNat l.length :: l) ++ 0 :: r) := by
    simp [qname]
  rw [hq] at hlen ⊢
  rw [extractHostname, if_neg (by omega)]
  dsimp only
  rw [hcopy, toNat_ofNat_length (by have := hl.2.1; omega), extractLoop_labels l (fun x hx => by have := (hls x hx).2.1; omega)]

/-! ## The walk writes inside the copy -/

/-- The positions the loop of `extract_hostname` writes a dot at, from `pos` on. -/
def labelWalk (hostname : List UInt8) (pos : ℕ) : List ℕ :=
  if h : pos < hostname.length then pos :: labelWalk hostname (pos + 1 + hostname[pos].toNat) else []
termination_by hostname.length - pos

/-- Every position the walk visits lies inside the copy. -/
theorem lt_length_of_mem_labelWalk {hostname : List UInt8} {pos i : ℕ} (h : i ∈ labelWalk hostname pos) :
    pos ≤ i ∧ i < hostname.length := by
  induction pos using labelWalk.induct hostname with
  | case1 pos hlt ih =>
    rw [labelWalk, dif_pos hlt, List.mem_cons] at h
    rcases h with rfl | h
    · exact ⟨Nat.le_refl _, hlt⟩
    · have := ih h
      omega
  | case2 pos hge =>
    rw [labelWalk, dif_neg hge] at h
    cases h

/-- A write before `pos` changes nothing the walk from `pos` reads. -/
theorem labelWalk_set {hostname : List UInt8} {i pos : ℕ} (hi : i < pos) (b : UInt8) :
    labelWalk (hostname.set i b) pos = labelWalk hostname pos := by
  induction pos using labelWalk.induct hostname with
  | case1 pos hlt ih =>
    rw [labelWalk.eq_1 (hostname.set i b), dif_pos (by simpa using hlt), labelWalk.eq_1 hostname, dif_pos hlt,
      List.getElem_set_ne (by omega), ih (by omega)]
  | case2 pos hge =>
    rw [labelWalk.eq_1 (hostname.set i b), dif_neg (by simpa using hge), labelWalk.eq_1 hostname, dif_neg hge]

/-- The loop writes a dot at each position of the walk and nowhere else. -/
theorem extractLoop_eq (hostname : List UInt8) (pos : ℕ) :
    extractLoop hostname pos = (labelWalk hostname pos).foldl (fun h i => h.set i dot) hostname := by
  induction hostname, pos using extractLoop.induct with
  | case1 hostname pos hlt label ih =>
    rw [extractLoop, dif_pos hlt, ih, labelWalk_set (by omega), labelWalk.eq_1 hostname pos, dif_pos hlt,
      List.foldl_cons]
  | case2 hostname pos hge =>
    rw [extractLoop, dif_neg hge, labelWalk.eq_1 hostname pos, dif_neg hge, List.foldl_nil]

/-! ## The filter over a run of `add_hostname` -/

/-- A hostname is in the table after a run of `add_hostname` iff it was added or was
there before. -/
theorem lookup_addHostnames (h : List UInt8) :
    ∀ (names : List (List UInt8)) (proxy : State),
      ((names.foldl addHostname proxy).hostnames.lookup h).isSome ↔ h ∈ names ∨ (proxy.hostnames.lookup h).isSome
  | [], proxy => by simp
  | n :: names, proxy => by
    rw [List.foldl_cons, lookup_addHostnames h names, addHostname, OrderedMap.lookup_put, List.mem_cons]
    by_cases hn : h = n
    · simp [hn]
    · simp [hn]

theorem hostnames_addHostnames_eq_nil :
    ∀ (names : List (List UInt8)) (proxy : State),
      (names.foldl addHostname proxy).hostnames = [] ↔ names = [] ∧ proxy.hostnames = []
  | [], proxy => by simp
  | n :: names, proxy => by
    rw [List.foldl_cons, hostnames_addHostnames_eq_nil names]
    simp [addHostname, OrderedMap.put_ne_nil]

/-- **What the filter lets through**, after any run of `add_hostname` from the start:
everything while no hostname is registered, and then exactly the standard queries whose
first name is registered. -/
theorem checkHostname_iff (names : List (List UInt8)) (data : List UInt8) :
    checkHostname (names.foldl addHostname create) data = true ↔
      names = [] ∨ (dnsHeaderSize ≤ data.length ∧ isQuery data = true ∧
        ∃ h ∈ names, extractHostname (data.drop dnsHeaderSize) = some h) := by
  by_cases hn : names = []
  · subst hn
    simp [checkHostname, create]
  have hne : (names.foldl addHostname create).hostnames.length ≠ 0 := by
    rw [Ne, List.length_eq_zero_iff, hostnames_addHostnames_eq_nil]
    exact fun h => hn h.1
  unfold checkHostname
  rw [if_neg hne]
  by_cases hlen : data.length < dnsHeaderSize
  · rw [if_pos hlen]
    simp only [Bool.false_eq_true, false_iff, not_or]
    exact ⟨hn, fun h => absurd h.1 (by omega)⟩
  rw [if_neg hlen]
  by_cases hq : isQuery data = true
  · rw [if_pos hq]
    -- the name the query asks for decides
    cases hx : extractHostname (data.drop dnsHeaderSize) with
    | none => simp [hn]
    | some x =>
      have hmem := lookup_addHostnames x names create
      rw [show (create.hostnames.lookup x).isSome = false from rfl, Bool.false_eq_true, or_false] at hmem
      dsimp only
      rw [hmem]
      simp [hn, hq, Nat.le_of_not_lt hlen]
  · rw [if_neg hq]
    simp [hn, hq]

/-- `handle` takes only UDP packets to port 53 that the filter lets through. -/
theorem handle_forwards {proxy : State} {socketOk : Bool} {packet : IpPacket}
    (h : handle proxy socketOk packet = true) :
    packet.nextHeader = ipprotoUdp ∧ packet.dst.port = 53 ∧ checkHostname proxy (packet.payload.drop 8) = true := by
  unfold handle at h
  split_ifs at h with h1 h2 h3
  · exact ⟨not_not.mp h1, not_not.mp h2, by simpa using h3⟩

/-- What the filter of the DNS proxy is for: a name encoded as RFC 1035 prescribes, with
labels of 1 to 63 bytes and no NUL, is extracted as its labels joined by dots, whatever
follows it within 255 bytes; on any input the walk over the copy writes its dots inside
the copy; after any run of `add_hostname`, `check_hostname` lets a packet through iff no
hostname is registered or it is a standard query whose extracted name is registered;
and `handle` takes only UDP packets to port 53 that `check_hostname` lets through. -/
theorem dns_hostname_filter :
    (∀ (l : List UInt8) (ls : List (List UInt8)) (r : List UInt8), (∀ x ∈ l :: ls, GoodLabel x) →
      (qname (l :: ls) ++ r).length ≤ 255 →
        extractHostname (qname (l :: ls) ++ r) = some (l ++ ls.flatMap (dot :: ·))) ∧
    (∀ (hostname : List UInt8) (pos : ℕ),
      extractLoop hostname pos = (labelWalk hostname pos).foldl (fun h i => h.set i dot) hostname ∧
        ∀ i ∈ labelWalk hostname pos, i < hostname.length) ∧
    (∀ (names : List (List UInt8)) (data : List UInt8),
      checkHostname (names.foldl addHostname create) data = true ↔
        names = [] ∨ (dnsHeaderSize ≤ data.length ∧ isQuery data = true ∧
          ∃ h ∈ names, extractHostname (data.drop dnsHeaderSize) = some h)) ∧
    (∀ (proxy : State) (socketOk : Bool) (packet : IpPacket), handle proxy socketOk packet = true →
      packet.nextHeader = ipprotoUdp ∧ packet.dst.port = 53 ∧ checkHostname proxy (packet.payload.drop 8) = true) :=
  ⟨fun _ _ r hgood hlen => extractHostname_qname hgood r hlen,
    fun hostname pos => ⟨extractLoop_eq hostname pos, fun _ hi => (lt_length_of_mem_labelWalk hi).2⟩,
    checkHostname_iff, fun _ _ _ h => handle_forwards h⟩

theorem dns_hostname_filter_www :
    extractHostname (qname [[0x77, 0x77, 0x77], [0x63, 0x6f, 0x6d]] ++ [0, 1, 0, 1]) =
        some ([0x77, 0x77, 0x77] ++ [[0x63, 0x6f, 0x6d]].flatMap (dot :: ·)) ∧
      (ipprotoUdp = ipprotoUdp ∧ (53 : UInt16) = 53 ∧ checkHostname create ((List.replicate 20 0).drop 8) = true) :=
  ⟨dns_hostname_filter.1 _ _ _ (by decide) (by decide),
    dns_hostname_filter.2.2.2 create true
      ⟨⟨.inet, [10, 0, 0, 1], 5353⟩, ⟨.inet, [10, 0, 0, 53], 53⟩, [], List.replicate 20 0, 4, ipprotoUdp⟩
      (by decide)⟩

end VpnClient.Android.DnsProxy
