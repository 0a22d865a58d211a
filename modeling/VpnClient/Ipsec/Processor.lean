import VpnClient.Ipsec.Sa
import VpnClient.Ipsec.Policy

/-!
# The IPsec processor

`ipsec_processor_t` (`libipsec/ipsec_processor.c`): one thread takes ESP packets off
the inbound queue, finds their SA by SPI and destination, decrypts them, and hands
the inner packet to the inbound callback (the TUN device) if its next header is IPIP
or IPv6 and an inbound policy of the SA's reqid matches it; another takes IP packets
off the outbound queue, finds the first outbound policy that matches, the SA of its
reqid, encrypts, and hands the ESP packet to the outbound callback.

The state is what the two threads share: the SAs and policies of the global `ipsec`
managers, and which callbacks are registered. The SA manager's locks make each
thread's work on an SA one atomic step, so a run is a sequence of steps, inbound and
outbound interleaved as they may be (`run`). A step returns what it handed to a
callback, together with the position of the SA it used.

The data path is safe (`processInbound_authorised`, `processOutbound_policy`): a packet
is delivered only under an installed inbound SA, after its ICV verified and the
replay window accepted it, with the right next header and a matching inbound policy;
and over any run no two packets delivered under one SA carry the same sequence
number (`run_windows`), because every inbound SA's window represents the numbers
authenticated under it (`WindowsInv`).
-/

namespace VpnClient.Ipsec

open VpnClient.Lib ByteReader

/-- The state of the data path: the installed SAs and policies, and whether the
inbound and outbound callbacks are registered. -/
structure IpsecState where
  sas : List IpsecSa
  policies : List IpsecPolicyEntry
  inboundCb : Bool
  outboundCb : Bool

/-- `process_inbound` on one packet of the inbound queue: the state after it, and
the inner packet passed to the inbound callback, with the position of its SA. -/
def processInbound (st : IpsecState) (packet : EspPacket) : IpsecState × Option (ℕ × IpPacket) :=
  match packet.parseHeader with
  | none => (st, none)
  | some spi =>
    match checkoutBySpi st.sas spi packet.dst with
    | none => (st, none)
    | some (i, sa) =>
      if !sa.inbound then (st, none)
      else
        let r := packet.decrypt sa.espContext
        let sa := { sa with espContext := r.2 }
        match r.1 with
        | .error _ => ({ st with sas := st.sas.set i sa }, none)
        | .ok (ipPacket, nextHeader) =>
          let sa := sa.updateUsestats (UInt32.ofNat ipPacket.packet.length)
          let st := { st with sas := st.sas.set i sa }
          if nextHeader = ipprotoIpip ∨ nextHeader = ipprotoIpv6 then
            match findByPacket st.policies ipPacket true sa.reqid with
            -- deliver_inbound: to the callback, or dropped without one
            | some _ => (st, if st.inboundCb then some (i, ipPacket) else none)
            | none => (st, none)
          -- IPPROTO_NONE and anything else is discarded
          else (st, none)

/-- `process_outbound` on one packet of the outbound queue: the state after it, and
the ESP packet passed to the outbound callback with its UDP encapsulation flag, with
the position of its SA. Without an SA the packet is dropped; the acquire it may
trigger is not modelled. -/
def processOutbound (st : IpsecState) (packet : IpPacket) :
    IpsecState × Option (ℕ × EspPacket × Bool) :=
  match findByPacket st.policies packet false 0 with
  | none => (st, none)
  | some policy =>
    match checkoutByReqid st.sas policy.reqid false with
    | none => (st, none)
    | some (i, sa) =>
      let espPacket := espPacketCreateFromPayload sa.src sa.dst (some packet)
      let r := espPacket.encrypt sa.espContext sa.spi
      let sa := { sa with espContext := r.2 }
      match r.1 with
      | .error _ => ({ st with sas := st.sas.set i sa }, none)
      | .ok data =>
        let sa := sa.updateUsestats (UInt32.ofNat packet.packet.length)
        let st := { st with sas := st.sas.set i sa }
        -- send_outbound: to the callback, or dropped without one
        (st, if st.outboundCb then some (i, { espPacket with data }, sa.encap) else none)

/-- A packet taken off one of the two queues. -/
inductive Event
  | inbound (packet : EspPacket)
  | outbound (packet : IpPacket)

/-- What a step handed to a callback, with the position of the SA it used. -/
inductive Output
  | deliver (sa : ℕ) (esp : EspPacket) (packet : IpPacket)
  | send (sa : ℕ) (esp : EspPacket) (encap : Bool)

/-- One step of either thread. -/
def step (st : IpsecState) : Event → IpsecState × Option Output
  | .inbound packet =>
    let r := processInbound st packet
    (r.1, r.2.map fun d => .deliver d.1 packet d.2)
  | .outbound packet =>
    let r := processOutbound st packet
    (r.1, r.2.map fun s => .send s.1 s.2.1 s.2.2)

/-- A run of steps, with what was handed to the callbacks, in order. -/
def run (st : IpsecState) : List Event → IpsecState × List Output
  | [] => (st, [])
  | ev :: evs =>
    let r := step st ev
    let t := run r.1 evs
    (t.1, r.2.toList ++ t.2)

/-! ## 1. What a step can do -/

section Steps

variable {st : IpsecState}

/-- **What `process_inbound` can do**: nothing, or, for an installed inbound SA found by
the packet's SPI and destination, store the context `decrypt` left and count the
packet, and deliver only what decrypted with next header IPIP or IPv6 and an inbound
policy of the SA's reqid, under that SA. -/
theorem processInbound_cases (st : IpsecState) (packet : EspPacket) :
    processInbound st packet = (st, none) ∨
    ∃ spi i sa, packet.parseHeader = some spi ∧ checkoutBySpi st.sas spi packet.dst = some (i, sa) ∧
      sa.inbound = true ∧
      ∃ sa' : IpsecSa, sa'.espContext = (packet.decrypt sa.espContext).2 ∧ sa'.inbound = sa.inbound ∧
        sa'.reqid = sa.reqid ∧
        (processInbound st packet).1 = { st with sas := st.sas.set i sa' } ∧
        ∀ d, (processInbound st packet).2 = some d → d.1 = i ∧
          ∃ nextHeader, (packet.decrypt sa.espContext).1 = .ok (d.2, nextHeader) ∧
            (nextHeader = ipprotoIpip ∨ nextHeader = ipprotoIpv6) ∧
            (findByPacket st.policies d.2 true sa.reqid).isSome := by
  unfold processInbound
  split
  · exact Or.inl rfl
  rename_i spi hspi
  split
  · exact Or.inl rfl
  rename_i i sa hsa
  by_cases hin : sa.inbound = true
  · refine Or.inr ⟨spi, i, sa, hspi, hsa, hin, ?_⟩
    rw [if_neg (by simp [hin])]
    dsimp only
    split
    · -- decryption failed: only the context is stored
      exact ⟨{ sa with espContext := (packet.decrypt sa.espContext).2 }, rfl, rfl, rfl, rfl,
        fun d hd => by cases hd⟩
    rename_i ipPacket nextHeader hdec
    refine ⟨({ sa with espContext := (packet.decrypt sa.espContext).2 }).updateUsestats
      (UInt32.ofNat ipPacket.packet.length), IpsecSa.updateUsestats_espContext _ _,
      IpsecSa.updateUsestats_inbound _ _, IpsecSa.updateUsestats_reqid _ _, ?_, ?_⟩
    · split_ifs <;> (try split) <;> rfl
    · intro d hd
      split_ifs at hd with hnh hcb
      · split at hd
        · rename_i hpol
          rw [IpsecSa.updateUsestats_reqid] at hpol
          cases hd
          exact ⟨rfl, nextHeader, hdec, hnh, by simp [hpol]⟩
        · cases hd
      · -- no inbound callback: dropped
        split at hd <;> cases hd
  · exact Or.inl (by rw [if_pos (by simpa using hin)])

/-- **What `process_outbound` can do**: nothing, or, for the first policy of the
packet's direction that matches and the first outbound SA of its reqid, store the
context `encrypt` left and count the packet, and send only what encrypted, under that
SA. -/
theorem processOutbound_cases (st : IpsecState) (packet : IpPacket) :
    processOutbound st packet = (st, none) ∨
    ∃ policy i sa, findByPacket st.policies packet false 0 = some policy ∧
      checkoutByReqid st.sas policy.reqid false = some (i, sa) ∧
      ∃ sa' : IpsecSa, sa'.espContext =
          ((espPacketCreateFromPayload sa.src sa.dst (some packet)).encrypt sa.espContext sa.spi).2 ∧
        sa'.inbound = sa.inbound ∧
        (processOutbound st packet).1 = { st with sas := st.sas.set i sa' } ∧
        ∀ s, (processOutbound st packet).2 = some s → s.1 = i ∧
          ((espPacketCreateFromPayload sa.src sa.dst (some packet)).encrypt sa.espContext sa.spi).1 =
            .ok s.2.1.data := by
  unfold processOutbound
  split
  · exact Or.inl rfl
  rename_i policy hpol
  split
  · exact Or.inl rfl
  rename_i i sa hsa
  refine Or.inr ⟨policy, i, sa, hpol, hsa, ?_⟩
  dsimp only
  split
  · exact ⟨{ sa with espContext :=
      ((espPacketCreateFromPayload sa.src sa.dst (some packet)).encrypt sa.espContext sa.spi).2 },
      rfl, rfl, rfl, fun s hs => by cases hs⟩
  rename_i data henc
  refine ⟨({ sa with espContext :=
      ((espPacketCreateFromPayload sa.src sa.dst (some packet)).encrypt sa.espContext sa.spi).2 }).updateUsestats
      (UInt32.ofNat packet.packet.length), IpsecSa.updateUsestats_espContext _ _,
    IpsecSa.updateUsestats_inbound _ _, rfl, ?_⟩
  intro s hs
  split_ifs at hs
  cases hs
  exact ⟨rfl, henc⟩

end Steps

/-! ## 2. What is delivered and what is sent -/

/-- What a delivered packet needs: an installed inbound SA that is not hard expired
and has the packet's SPI and destination, under which its ICV verified after the
replay window accepted its number; next header IPIP or IPv6; and an inbound policy
of the SA's reqid (any inbound policy for reqid `0`) that matches it. -/
def DeliveryAuthorised (st : IpsecState) (packet : EspPacket) (i : ℕ) (ip : IpPacket) : Prop :=
  ∃ sa : IpsecSa, st.sas[i]? = some sa ∧ packet.parseHeader = some sa.spi ∧
    sa.dst.ipEquals packet.dst = true ∧ sa.inbound = true ∧ sa.hardExpired = false ∧
    (∃ seq iv ciphertext icv plaintext nextHeader,
      readEsp sa.espContext.aead packet.data = some (seq, iv, ciphertext, icv) ∧
      sa.espContext.verifySeqno seq = true ∧
      sa.espContext.aead.decrypt (ciphertext ++ icv) (packet.data.take 8) iv = some plaintext ∧
      removePadding plaintext = some (ip, nextHeader) ∧
      (nextHeader = ipprotoIpip ∨ nextHeader = ipprotoIpv6)) ∧
    ∃ e ∈ st.policies, e.policy.direction = .policyIn ∧ e.policy.matchPacket ip = true ∧
      (sa.reqid = 0 ∨ e.policy.reqid = sa.reqid)

/-- **A delivered packet was authorised.** -/
theorem processInbound_authorised {st : IpsecState} {packet : EspPacket} {i : ℕ} {ip : IpPacket}
    (h : (processInbound st packet).2 = some (i, ip)) : DeliveryAuthorised st packet i ip := by
  rcases processInbound_cases st packet with h0 | ⟨spi, i', sa, hspi, hsa, hin, -, -, -, -, -, hout⟩
  · rw [h0] at h
    cases h
  obtain ⟨rfl, nextHeader, hdec, hnh, hpol⟩ := hout _ h
  obtain ⟨hget, rfl, hdst, hexp⟩ := checkoutBySpi_eq_some hsa
  -- decrypt succeeded, so the lengths, the window, the ICV and the padding were right
  obtain ⟨seq, iv, ciphertext, icv, plaintext, hread, hverify, hicv, hpad, -⟩ :=
    EspPacket.decrypt_eq_ok (Prod.ext hdec rfl)
  -- and find_by_packet found an inbound policy of the SA's reqid
  obtain ⟨policy, hpolicy⟩ := Option.isSome_iff_exists.mp hpol
  obtain ⟨k, e, hk, rfl, hdir, hmatch, hreqid, -⟩ := findByPacket_eq_some hpolicy
  exact ⟨sa, hget, hspi, hdst, hin, hexp,
    ⟨seq, iv, ciphertext, icv, plaintext, nextHeader, hread, hverify, hicv, hpad, hnh⟩,
    e, List.mem_of_getElem? hk, hdir.mp rfl, hmatch, hreqid⟩

/-- **A sent packet followed the policy**: it was encrypted under an outbound SA that
is not hard expired and has the reqid of the first policy, in priority order, that is
not inbound and matches the plaintext packet; it is the first such SA. -/
theorem processOutbound_policy {st : IpsecState} {packet : IpPacket} {i : ℕ} {esp : EspPacket}
    {encap : Bool} (h : (processOutbound st packet).2 = some (i, esp, encap)) :
    ∃ (k : ℕ) (e : IpsecPolicyEntry) (sa : IpsecSa), st.policies[k]? = some e ∧
      e.policy.direction ≠ .policyIn ∧ e.policy.matchPacket packet = true ∧
      (∀ j < k, ∀ e' : IpsecPolicyEntry, st.policies[j]? = some e' →
        e'.policy.direction ≠ .policyIn → e'.policy.matchPacket packet = false) ∧
      st.sas[i]? = some sa ∧ sa.inbound = false ∧ sa.hardExpired = false ∧
      sa.reqid = e.policy.reqid ∧
      (∀ j < i, ∀ sa' : IpsecSa, st.sas[j]? = some sa' → sa'.matchByReqid e.policy.reqid false = false) ∧
      ((espPacketCreateFromPayload sa.src sa.dst (some packet)).encrypt sa.espContext sa.spi).1 =
        .ok esp.data := by
  rcases processOutbound_cases st packet with h0 | ⟨policy, i', sa, hpol, hsa, -, -, -, -, hout⟩
  · rw [h0] at h
    cases h
  obtain ⟨rfl, henc⟩ := hout _ h
  obtain ⟨k, e, hk, rfl, hdir, hmatch, -, hfirst⟩ := findByPacket_eq_some hpol
  obtain ⟨hget, hreqid, hin, hexp, hsafirst⟩ := checkoutByReqid_eq_some hsa
  refine ⟨k, e, sa, hk, fun hin' => absurd (hdir.mpr hin') Bool.false_ne_true, hmatch, ?_, hget, hin,
    hexp, hreqid, hsafirst, henc⟩
  -- an earlier entry that is not inbound was not wanted, so it did not match
  intro j hj e' he' hdir'
  have hw := hfirst j hj e' he'
  simpa [IpsecPolicyEntry.wanted, hdir'] using hw

/-! ## 3. The replay windows along a run -/

/-- Every inbound SA's window represents the sequence numbers authenticated under it,
`A i` for the SA at position `i`. -/
def WindowsInv (st : IpsecState) (A : ℕ → Finset ℕ) : Prop :=
  ∀ i sa, st.sas[i]? = some sa → sa.inbound = true → WindowInv sa.espContext (A i)

/-- The sequence number of a packet delivered under the SA at position `i`. -/
def Output.seqUnder (i : ℕ) : Output → Option UInt32
  | .deliver j esp _ => if j = i then esp.seqno else none
  | .send .. => none

section Windows

variable {st : IpsecState} {A : ℕ → Finset ℕ}

/-- Writing an SA back keeps the invariant, with its window representing `B`. -/
theorem WindowsInv.set (h : WindowsInv st A) (i : ℕ) {sa : IpsecSa} {B : Finset ℕ}
    (hsa : sa.inbound = true → WindowInv sa.espContext B) :
    WindowsInv { st with sas := st.sas.set i sa } (Function.update A i B) := by
  intro j sa' hj hin
  rw [List.getElem?_set] at hj
  by_cases hij : i = j
  · subst hij
    rw [if_pos rfl] at hj
    split_ifs at hj
    cases hj
    rw [Function.update_self]
    exact hsa hin
  · rw [if_neg hij] at hj
    rw [Function.update_of_ne (Ne.symm hij)]
    exact h j sa' hj hin

/-- **The inbound step lemma**: the windows stay exact, and a delivered packet's
number was not authenticated under its SA before and is now. -/
theorem WindowsInv.processInbound (h : WindowsInv st A) (packet : EspPacket) :
    ∃ A', WindowsInv (processInbound st packet).1 A' ∧ (∀ i, A i ⊆ A' i) ∧
      ∀ d, (processInbound st packet).2 = some d →
        ∃ seq, packet.seqno = some seq ∧ seq.toNat ∉ A d.1 ∧ seq.toNat ∈ A' d.1 := by
  rcases processInbound_cases st packet with h0 | ⟨spi, i, sa, -, hsa, hin, sa', hctx, hin', -, hst, hout⟩
  · rw [h0]
    exact ⟨A, h, fun _ => subset_rfl, fun d hd => by cases hd⟩
  obtain ⟨hget, -, -, -⟩ := checkoutBySpi_eq_some hsa
  have hw := h i sa hget hin
  rw [EspPacket.decrypt_context] at hctx
  rw [hst]
  split at hctx
  · -- the lengths were wrong: the window is as it was, and nothing is delivered
    rename_i hread
    refine ⟨A, ?_, fun _ => subset_rfl, fun d hd => ?_⟩
    · have := h.set i (show sa'.inbound = true → WindowInv sa'.espContext (A i) from
        fun _ => hctx ▸ hw)
      rwa [Function.update_eq_self] at this
    · obtain ⟨-, nextHeader, hdec, -⟩ := hout d hd
      obtain ⟨_, _, _, _, _, hread', -⟩ := EspPacket.decrypt_eq_ok (Prod.ext hdec rfl)
      rw [hread] at hread'
      cases hread'
  rename_i seq iv ciphertext icv hread
  -- the window received the number, authenticated when the ICV verified
  obtain ⟨hfresh, hw'⟩ := hw.receive seq
    (sa.espContext.aead.decrypt (ciphertext ++ icv) (packet.data.take 8) iv).isSome
  refine ⟨Function.update A i (if (sa.espContext.receive seq
      (sa.espContext.aead.decrypt (ciphertext ++ icv) (packet.data.take 8) iv).isSome).2
      then insert seq.toNat (A i) else A i), h.set i (fun _ => hctx ▸ hw'), ?_, ?_⟩
  · intro j
    by_cases hij : j = i
    · subst hij
      rw [Function.update_self]
      split_ifs
      exacts [Finset.subset_insert _ _, subset_rfl]
    · rw [Function.update_of_ne hij]
  · -- a delivered packet decrypted, so its number was fresh and is now recorded
    intro d hd
    obtain ⟨hd1, nextHeader, hdec, -⟩ := hout d hd
    obtain ⟨seq', iv', ciphertext', icv', plaintext, hread', hverify, hicv, -⟩ :=
      EspPacket.decrypt_eq_ok (Prod.ext hdec rfl)
    rw [hread] at hread'
    cases hread'
    have hacc : (sa.espContext.receive seq
        (sa.espContext.aead.decrypt (ciphertext ++ icv) (packet.data.take 8) iv).isSome).2 = true := by
      simp [hverify, hicv]
    rw [hd1, Function.update_self, if_pos hacc]
    exact ⟨seq, seqno_of_readEsp hread, (hfresh hacc).not_mem, Finset.mem_insert_self _ _⟩

/-- The outbound step uses an outbound SA only, and so keeps every inbound window. -/
theorem WindowsInv.processOutbound (h : WindowsInv st A) (packet : IpPacket) :
    WindowsInv (processOutbound st packet).1 A := by
  rcases processOutbound_cases st packet with h0 | ⟨policy, i, sa, -, hsa, sa', -, hin', hst, -⟩
  · rw [h0]
    exact h
  obtain ⟨-, -, hin, -, -⟩ := checkoutByReqid_eq_some hsa
  rw [hst]
  have := h.set i (show sa'.inbound = true → WindowInv sa'.espContext (A i) from
    fun h' => absurd (hin' ▸ h') (by simp [hin]))
  rwa [Function.update_eq_self] at this

/-- **The step lemma**: either thread keeps the windows exact, and a packet delivered
under an SA carries a number new to that SA's window. -/
theorem WindowsInv.step (h : WindowsInv st A) (ev : Event) :
    ∃ A', WindowsInv (step st ev).1 A' ∧ (∀ i, A i ⊆ A' i) ∧
      ∀ i s, (step st ev).2.bind (Output.seqUnder i) = some s → s.toNat ∉ A i ∧ s.toNat ∈ A' i := by
  cases ev with
  | inbound packet =>
    obtain ⟨A', hA', hsub, hnew⟩ := h.processInbound packet
    refine ⟨A', hA', hsub, fun i s hs => ?_⟩
    simp only [Ipsec.step, Option.bind_map] at hs
    obtain ⟨d, hd, hs⟩ := Option.bind_eq_some_iff.mp hs
    obtain ⟨seq, hseq, hnot, hmem⟩ := hnew d hd
    simp only [Function.comp_apply, Output.seqUnder] at hs
    split_ifs at hs with hdi
    rw [hseq, Option.some.injEq] at hs
    subst hs hdi
    exact ⟨hnot, hmem⟩
  | outbound packet =>
    refine ⟨A, h.processOutbound packet, fun _ => subset_rfl, fun i s hs => ?_⟩
    simp only [Ipsec.step, Option.bind_map] at hs
    obtain ⟨_, -, hs⟩ := Option.bind_eq_some_iff.mp hs
    cases hs

/-- **The run lemma**: along any run the windows stay exact, and the numbers of the
packets delivered under one SA are distinct and were not authenticated under it
before. -/
theorem run_windows : ∀ (evs : List Event) {st : IpsecState} {A : ℕ → Finset ℕ}, WindowsInv st A →
    ∃ A', WindowsInv (run st evs).1 A' ∧ (∀ i, A i ⊆ A' i) ∧
      ∀ i, (((run st evs).2.filterMap (Output.seqUnder i)).map UInt32.toNat).Nodup ∧
        ∀ s ∈ (run st evs).2.filterMap (Output.seqUnder i), s.toNat ∉ A i ∧ s.toNat ∈ A' i
  | [], st, A, h => ⟨A, h, fun _ => subset_rfl, fun _ => by simp [run]⟩
  | ev :: evs, st, A, h => by
    obtain ⟨A₁, h₁, hsub₁, hnew₁⟩ := h.step ev
    obtain ⟨A₂, h₂, hsub₂, hrest⟩ := run_windows evs h₁
    refine ⟨A₂, h₂, fun i => (hsub₁ i).trans (hsub₂ i), fun i => ?_⟩
    obtain ⟨hnodup, hfresh⟩ := hrest i
    simp only [run, List.filterMap_append]
    -- the step delivered at most one packet under SA i, new to the window after it
    cases hs : (step st ev).2.bind (Output.seqUnder i) with
    | none =>
      have hnil : (step st ev).2.toList.filterMap (Output.seqUnder i) = [] := by
        cases ho : (step st ev).2 <;> simp_all
      rw [hnil, List.nil_append]
      exact ⟨hnodup, fun s hs' => ⟨fun hA => (hfresh s hs').1 (hsub₁ i hA), (hfresh s hs').2⟩⟩
    | some s =>
      have hone : (step st ev).2.toList.filterMap (Output.seqUnder i) = [s] := by
        cases ho : (step st ev).2 <;> simp_all
      obtain ⟨hnot, hmem⟩ := hnew₁ i s hs
      rw [hone, List.singleton_append]
      refine ⟨?_, fun t ht => ?_⟩
      · rw [List.map_cons, List.nodup_cons]
        refine ⟨fun hin => ?_, hnodup⟩
        obtain ⟨t, ht, hts⟩ := List.mem_map.mp hin
        exact (hfresh t ht).1 (hts ▸ hmem)
      · rcases List.mem_cons.mp ht with rfl | ht
        · exact ⟨hnot, hsub₂ i hmem⟩
        · exact ⟨fun hA => (hfresh t ht).1 (hsub₁ i hA), (hfresh t ht).2⟩

end Windows

/-! ## 4. The data path -/

/-- Windows fresh from `esp_context_create` represent nothing authenticated. -/
theorem WindowsInv.of_created {st : IpsecState}
    (h : ∀ sa ∈ st.sas, sa.inbound = true → sa.espContext = espContextCreate sa.espContext.aead true) :
    WindowsInv st fun _ => ∅ := by
  intro i sa hget hin
  rw [h sa (List.mem_of_getElem? hget) hin]
  exact WindowInv.create _

/-- What a sent packet needs: it was encrypted under an outbound SA that is not hard
expired, the first one with the reqid of the first outbound policy, in priority
order, that matches the plaintext packet. -/
def SendAuthorised (st : IpsecState) (packet : IpPacket) (i : ℕ) (esp : EspPacket) : Prop :=
  ∃ (k : ℕ) (e : IpsecPolicyEntry) (sa : IpsecSa), st.policies[k]? = some e ∧
    e.policy.direction = .policyOut ∧ e.policy.matchPacket packet = true ∧
    (∀ j < k, ∀ e' : IpsecPolicyEntry, st.policies[j]? = some e' →
      e'.policy.direction = .policyOut → e'.policy.matchPacket packet = false) ∧
    st.sas[i]? = some sa ∧ sa.inbound = false ∧ sa.hardExpired = false ∧
    sa.reqid = e.policy.reqid ∧
    (∀ j < i, ∀ sa' : IpsecSa, st.sas[j]? = some sa' → sa'.matchByReqid e.policy.reqid false = false) ∧
    ((espPacketCreateFromPayload sa.src sa.dst (some packet)).encrypt sa.espContext sa.spi).1 =
      .ok esp.data

/-- Where no installed policy forwards, a sent packet followed an outbound policy. -/
theorem sendAuthorised_of_notFwd {st : IpsecState}
    (hfwd : ∀ e ∈ st.policies, e.policy.direction ≠ .policyFwd) {packet : IpPacket} {i : ℕ}
    {esp : EspPacket} {encap : Bool} (h : (processOutbound st packet).2 = some (i, esp, encap)) :
    SendAuthorised st packet i esp := by
  obtain ⟨k, e, sa, hk, hdir, hmatch, hfirst, hsa⟩ := processOutbound_policy h
  -- not inbound, and never a forwarding policy: an outbound one
  have hout : e.policy.direction = .policyOut := by
    have := hfwd e (List.mem_of_getElem? hk)
    cases hd : e.policy.direction <;> simp_all
  exact ⟨k, e, sa, hk, hout, hmatch,
    fun j hj e' he' hdir' => hfirst j hj e' he' (by simp [hdir']), hsa⟩

/-- **The userspace IPsec data path delivers only authorised traffic.** Whatever the
SAs and policies: a packet handed to the inbound callback came under an installed
inbound SA for its SPI and destination that is not hard expired, its ICV verified and
its number was accepted by the replay window, its next header is IPIP or IPv6, and an
inbound policy of the SA's reqid matches it. Along any run from SAs whose windows are
exact, no two packets delivered under one SA carry the same sequence number. And with
the policies `add_policy` installs (never a forwarding one), a packet handed to the
outbound callback was encrypted under the first outbound SA of the reqid of the first
outbound policy that matches it. -/
theorem data_path_authorised :
    (∀ (st : IpsecState) (packet : EspPacket) (i : ℕ) (ip : IpPacket),
      (processInbound st packet).2 = some (i, ip) → DeliveryAuthorised st packet i ip) ∧
    (∀ (st : IpsecState) (A : ℕ → Finset ℕ), WindowsInv st A →
      ∀ (evs : List Event) (i : ℕ), ((run st evs).2.filterMap (Output.seqUnder i)).Nodup) ∧
    (∀ st : IpsecState, (∀ e ∈ st.policies, e.policy.direction ≠ .policyFwd) →
      ∀ (packet : IpPacket) (i : ℕ) (esp : EspPacket) (encap : Bool),
        (processOutbound st packet).2 = some (i, esp, encap) → SendAuthorised st packet i esp) := by
  refine ⟨fun st packet i ip h => processInbound_authorised h, ?_, ?_⟩
  · intro st A hA evs i
    obtain ⟨_, -, -, hrun⟩ := run_windows evs hA
    exact List.Nodup.of_map _ (hrun i).1
  · intro st hfwd packet i esp encap h
    exact sendAuthorised_of_notFwd hfwd h

/-- A gateway and a client: the ends of the SAs of the example below. -/
def gateway : Host := ⟨.inet, [192, 0, 2, 1], 4500⟩

def client : Host := ⟨.inet, [198, 51, 100, 7], 4500⟩

/-- A selector of every IPv4 address and port. -/
def anyIpv4 : TrafficSelector :=
  ⟨.ipv4AddrRange, 0, false, 0, [0, 0, 0, 0], [255, 255, 255, 255], 0, 0xffff⟩

/-- An SA with the keyed AEAD and a fresh context, without lifetime limits. -/
def exampleSa (spi : UInt32) (src dst : Host) (inbound : Bool) : IpsecSa where
  spi := spi
  src := src
  dst := dst
  reqid := 1
  lifetime := ⟨0, 0, 0, 0⟩
  encap := false
  inbound := inbound
  espContext := espContextCreate (keyedAead 0x5a 16 16) inbound
  usePackets := 0
  useBytes := 0
  softExpired := false
  hardExpired := false

/-- The client's SAs with the gateway, with an outbound and an inbound policy for all
IPv4 traffic. -/
def exampleState : IpsecState where
  sas := [exampleSa 0x2000 gateway client true, exampleSa 0x1000 client gateway false]
  policies := [⟨0, ⟨anyIpv4, anyIpv4, 0, .policyOut, 1, ⟨0, 0⟩, .policyPriorityDefault⟩⟩,
    ⟨0, ⟨anyIpv4, anyIpv4, 0, .policyIn, 1, ⟨0, 0⟩, .policyPriorityDefault⟩⟩]
  inboundCb := true
  outboundCb := true

/-- The echo request of `icmpEchoRequest` as `ip_packet_create` parses it. -/
def icmpPacket : IpPacket where
  src := ⟨.inet, [10, 0, 0, 1], 0⟩
  dst := ⟨.inet, [10, 0, 0, 2], 0⟩
  packet := icmpEchoRequest
  payload := icmpEchoRequest.drop 20
  version := 4
  nextHeader := 1

/-- The gateway's ESP packet of that request, sequence number 1. -/
def exampleEsp : EspPacket :=
  espPacketCreateFromPacket gateway client
    (match ((espPacketCreateFromPayload gateway client (some icmpPacket)).encrypt
        (espContextCreate (keyedAead 0x5a 16 16) false) 0x2000).1 with
      | .ok data => data
      | .error _ => [])

theorem data_path_authorised_replay :
    DeliveryAuthorised exampleState exampleEsp 0 icmpPacket ∧
      (run exampleState [.inbound exampleEsp, .inbound exampleEsp]).2.filterMap (Output.seqUnder 0) = [1] ∧
      ((run exampleState [.inbound exampleEsp, .inbound exampleEsp]).2.filterMap (Output.seqUnder 0)).Nodup ∧
      ∃ esp encap, (processOutbound exampleState icmpPacket).2 = some (1, esp, encap) ∧
        SendAuthorised exampleState icmpPacket 1 esp :=
  ⟨data_path_authorised.1 _ _ _ _ rfl, rfl,
    data_path_authorised.2.1 _ _ (WindowsInv.of_created fun sa hsa hin => by
      simp only [exampleState, List.mem_cons, List.not_mem_nil, or_false] at hsa
      rcases hsa with rfl | rfl
      · rfl
      · cases hin) _ _,
    _, _, rfl, data_path_authorised.2.2 _ (by decide) _ _ _ _ rfl⟩

end VpnClient.Ipsec
