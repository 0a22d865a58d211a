import VpnClient.Ipsec.Processor
import VpnClient.Lib.Run

/-!
# Expiring SAs

Two triggers expire an SA of `libipsec`. Each packet's `update_usestats` (`ipsec_sa.c`)
counts the packet and calls `expire` for the first limit reached, the hard limits first.
The job that `schedule_expiration` (`ipsec_sa_mgr.c`) queues calls `expire` when the
scheduler runs `sa_expired`: softly, and then, rescheduled after `hard_offset`, hard,
after which it removes the SA. `expire` raises an event only where the flags allow it:
a hard one once, a soft one only before any.

The two triggers run on different threads. The packet thread holds the SA checked out,
but not the manager's mutex; `sa_expired` holds the mutex but does not wait for the SA.
`expire` first reads the flags and then sets one, so each of its calls is two steps of
`SaExpiry.step` here, the check and the act, and the threads interleave between them.

Where the two threads' `expire` calls do not overlap (`SaExpiry.Serial`), the events
raised are those the flags record (`SaExpiry.Inv`): `[]`, `[soft]`, `[hard]` or
`[soft, hard]`, an update raises what `usestatsEvents` says, and a hard expired SA is
never checked out again (`expiry_serial`). Where they overlap, a soft event can follow a
hard one. The times of the timer's calls come from `schedule_expiration`, which keeps the
64-bit limits in a 32-bit timeout and `hard_offset` (`scheduleExpiration_calls`): where
`life - rekey` is a multiple of `2 ^ 32` the SA is never rekeyed, and its first call is
the hard expiry at `rekey` (`expiry_events_diverge`).
-/

namespace VpnClient.Ipsec

open VpnClient.Lib Run

namespace IpsecSa

/-! ## `expire` and `update_usestats` in steps -/

/-- The check of `expire`: whether the event it is called for is raised. -/
def expireRaises (sa : IpsecSa) (hard : Bool) : Bool :=
  if hard then !sa.hardExpired else !sa.hardExpired && !sa.softExpired

/-- The act of `expire` once its check passed: the flag set. -/
def setExpired (sa : IpsecSa) (hard : Bool) : IpsecSa :=
  if hard then { sa with hardExpired := true } else { sa with softExpired := true }

theorem expire_eq_setExpired (sa : IpsecSa) (hard : Bool) :
    sa.expire hard = if sa.expireRaises hard then sa.setExpired hard else sa := by
  cases hard <;> simp [expire, expireRaises, setExpired]

/-- The counters after one more packet of `bytes` bytes. -/
def count (sa : IpsecSa) (bytes : UInt32) : IpsecSa :=
  { sa with usePackets := sa.usePackets + 1, useBytes := sa.useBytes + bytes.toUInt64 }

/-- The `expire` call `update_usestats` makes on the counted SA, if any. -/
def limitReached (sa : IpsecSa) : Option Bool :=
  if sa.lifetime.packetsLife ≠ 0 ∧ sa.usePackets ≥ sa.lifetime.packetsLife then some true
  else if sa.lifetime.bytesLife ≠ 0 ∧ sa.useBytes ≥ sa.lifetime.bytesLife then some true
  else if sa.lifetime.packetsRekey ≠ 0 ∧ sa.usePackets ≥ sa.lifetime.packetsRekey then some false
  else if sa.lifetime.bytesRekey ≠ 0 ∧ sa.useBytes ≥ sa.lifetime.bytesRekey then some false
  else none

/-- `update_usestats` is the count, then the `expire` call for the limit reached. -/
theorem updateUsestats_eq_expire (sa : IpsecSa) (bytes : UInt32) :
    sa.updateUsestats bytes = match (sa.count bytes).limitReached with
      | some hard => (sa.count bytes).expire hard
      | none => sa.count bytes := by
  unfold updateUsestats limitReached count
  dsimp only
  split_ifs <;> rfl

@[simp] theorem count_softExpired (sa : IpsecSa) (bytes : UInt32) :
    (sa.count bytes).softExpired = sa.softExpired := rfl

@[simp] theorem count_hardExpired (sa : IpsecSa) (bytes : UInt32) :
    (sa.count bytes).hardExpired = sa.hardExpired := rfl

/-- A nonzero `packets.life` or `bytes.life` limit is reached. -/
def LifeReached (sa : IpsecSa) : Prop :=
  sa.lifetime.packetsLife ≠ 0 ∧ sa.usePackets ≥ sa.lifetime.packetsLife ∨
    sa.lifetime.bytesLife ≠ 0 ∧ sa.useBytes ≥ sa.lifetime.bytesLife

/-- A nonzero `packets.rekey` or `bytes.rekey` limit is reached. -/
def RekeyReached (sa : IpsecSa) : Prop :=
  sa.lifetime.packetsRekey ≠ 0 ∧ sa.usePackets ≥ sa.lifetime.packetsRekey ∨
    sa.lifetime.bytesRekey ≠ 0 ∧ sa.useBytes ≥ sa.lifetime.bytesRekey

instance (sa : IpsecSa) : Decidable sa.LifeReached := inferInstanceAs (Decidable (_ ∨ _))

instance (sa : IpsecSa) : Decidable sa.RekeyReached := inferInstanceAs (Decidable (_ ∨ _))

/-- The call `update_usestats` makes: hard on a `life` limit, soft on a `rekey` limit only. -/
theorem limitReached_eq (sa : IpsecSa) :
    sa.limitReached = if sa.LifeReached then some true else if sa.RekeyReached then some false else none := by
  unfold limitReached LifeReached RekeyReached
  by_cases hpl : sa.lifetime.packetsLife ≠ 0 ∧ sa.usePackets ≥ sa.lifetime.packetsLife
  · simp [hpl]
  by_cases hbl : sa.lifetime.bytesLife ≠ 0 ∧ sa.useBytes ≥ sa.lifetime.bytesLife
  · simp [hbl]
  by_cases hpr : sa.lifetime.packetsRekey ≠ 0 ∧ sa.usePackets ≥ sa.lifetime.packetsRekey
  · simp [hpl, hbl, hpr]
  · simp [hpl, hbl, hpr]

/-- The events the flags record, by the `hard` argument of `expire`: a soft one, then a
hard one. -/
def flagEvents (sa : IpsecSa) : List Bool :=
  (if sa.softExpired then [false] else []) ++ (if sa.hardExpired then [true] else [])

/-- Setting the flag a passed check was for records its event last. -/
theorem flagEvents_setExpired {sa : IpsecSa} {hard : Bool} (h : sa.expireRaises hard = true) :
    (sa.setExpired hard).flagEvents = sa.flagEvents ++ [hard] := by
  cases hard <;> simp_all [expireRaises, setExpired, flagEvents]

theorem flagEvents_cases (sa : IpsecSa) :
    sa.flagEvents = [] ∨ sa.flagEvents = [false] ∨ sa.flagEvents = [true] ∨ sa.flagEvents = [false, true] := by
  unfold flagEvents
  cases sa.softExpired <;> cases sa.hardExpired <;> simp

theorem hardExpired_iff_mem_flagEvents (sa : IpsecSa) : sa.hardExpired = true ↔ true ∈ sa.flagEvents := by
  unfold flagEvents
  cases sa.softExpired <;> cases sa.hardExpired <;> simp

theorem expireRaises_iff (sa : IpsecSa) (hard : Bool) :
    sa.expireRaises hard = true ↔ if hard then true ∉ sa.flagEvents else sa.flagEvents = [] := by
  unfold expireRaises flagEvents
  cases hard <;> cases sa.softExpired <;> cases sa.hardExpired <;> simp

end IpsecSa

/-- The events one `update_usestats` raises on the counted SA after the events `events`:
hard where a `life` limit is reached and no hard event was raised, otherwise soft where a
`rekey` limit is reached and no event was raised. -/
def usestatsEvents (events : List Bool) (sa : IpsecSa) : List Bool :=
  if sa.LifeReached then (if true ∈ events then [] else [true])
  else if sa.RekeyReached then (if events = [] then [false] else [])
  else []

/-- On an SA whose flags record the events raised, `usestatsEvents` is what the `expire`
call of `update_usestats` raises. -/
theorem usestatsEvents_flagEvents (sa : IpsecSa) :
    usestatsEvents sa.flagEvents sa =
      (sa.limitReached.map fun hard => if sa.expireRaises hard then [hard] else []).getD [] := by
  rw [IpsecSa.limitReached_eq]
  unfold usestatsEvents
  split_ifs with hlife hmem hrekey hnil <;> simp_all [IpsecSa.expireRaises_iff]

/-! ## The expiry job -/

/-- The `time` limits of `lifetime_cfg_t`, in seconds; `0` means none. -/
structure TimeLifetime where
  life : UInt64
  rekey : UInt64

/-- An `ipsec_sa_expired_t` job in the scheduler: when it runs, and its `hard_offset`. -/
structure ExpiryJob where
  due : ℕ
  hardOffset : UInt32

/-- `schedule_expiration` for an SA installed at time `now`. `hard_offset` and the
timeout are `uint32_t`: the 64-bit limits are cut to their low 32 bits. -/
def scheduleExpiration (now : ℕ) (t : TimeLifetime) : Option ExpiryJob :=
  if t.life = 0 then none
  else if t.life ≤ t.rekey ∨ t.rekey = 0 then some ⟨now + t.life.toUInt32.toNat, 0⟩
  else some ⟨now + t.rekey.toUInt32.toNat, (t.life - t.rekey).toUInt32⟩

/-- The `expire` calls a job makes while its SA stays installed, each with its time and
`hard`: one at `due`, and where that one is soft, the hard one it is rescheduled for. -/
def ExpiryJob.calls (j : ExpiryJob) : List (ℕ × Bool) :=
  if j.hardOffset = 0 then [(j.due, true)] else [(j.due, false), (j.due + j.hardOffset.toNat, true)]

/-- **The timer chain**: nothing without a `life` limit; a soft call at `rekey` and a hard
one `life - rekey` later where `0 < rekey < life`, unless that offset is a multiple of
`2 ^ 32`, which makes the first call hard; otherwise one hard call at `life`. The times
are cut to 32 bits. -/
theorem scheduleExpiration_calls (now : ℕ) (t : TimeLifetime) :
    ((scheduleExpiration now t).map ExpiryJob.calls).getD [] =
      if t.life = 0 then []
      else if t.rekey = 0 ∨ t.life ≤ t.rekey then [(now + t.life.toNat % 2 ^ 32, true)]
      else if (t.life.toNat - t.rekey.toNat) % 2 ^ 32 = 0 then [(now + t.rekey.toNat % 2 ^ 32, true)]
      else [(now + t.rekey.toNat % 2 ^ 32, false),
        (now + t.rekey.toNat % 2 ^ 32 + (t.life.toNat - t.rekey.toNat) % 2 ^ 32, true)] := by
  -- the offset `life - rekey` does not wrap in 64 bits, since `rekey < life`
  have hoff (h : t.rekey < t.life) :
      (t.life - t.rekey).toUInt32.toNat = (t.life.toNat - t.rekey.toNat) % 2 ^ 32 := by
    rw [UInt64.toNat_toUInt32, UInt64.toNat_sub_of_le _ _ (UInt64.le_of_lt h)]
  unfold scheduleExpiration
  by_cases hlife : t.life = 0
  · simp [hlife]
  by_cases hsoft : t.life ≤ t.rekey ∨ t.rekey = 0
  · simp [hlife, hsoft, or_comm, ExpiryJob.calls]
  · have hlt : t.rekey < t.life := by
      simp only [not_or, UInt64.not_le] at hsoft
      exact hsoft.1
    have hne : ¬(t.rekey = 0 ∨ t.life ≤ t.rekey) := by rwa [or_comm]
    simp only [hlife, hsoft, hne, if_false, Option.map_some, Option.getD_some, ExpiryJob.calls,
      UInt64.toNat_toUInt32, ← UInt32.toNat_inj, hoff hlt, UInt32.toNat_zero]

/-- A `life` of `2 ^ 32 + 1` seconds after a `rekey` at `1` leaves `hard_offset` at `0`:
the first call is the hard one. -/
example : ((scheduleExpiration 0 ⟨0x100000001, 1⟩).map ExpiryJob.calls).getD [] = [(1, true)] := by
  decide

/-! ## The two threads -/

/-- A thread inside `expire`, past the check: the `hard` it was called with, and whether
the check passed. -/
structure ExpireCheck where
  hard : Bool
  raises : Bool
  deriving DecidableEq

/-- One SA and its expiry: the SA, whether it is still in the manager's list, the job
waiting in the scheduler, the packet thread and the scheduler thread where they are
inside `expire`, and the `hard` argument of each expire event raised, oldest first. -/
structure SaExpiry where
  sa : IpsecSa
  installed : Bool
  job : Option ExpiryJob
  packet : Option ExpireCheck
  timer : Option ExpireCheck
  events : List Bool

/-- The steps of the packet thread, of the scheduler thread and of `del_sa`. -/
inductive ExpiryAction
  /-- `update_usestats`, up to the check of its `expire` call. -/
  | update (bytes : UInt32)
  /-- The act of the packet thread's `expire`. -/
  | updateExpire
  /-- `sa_expired`, up to the check of its `expire` call. -/
  | fire
  /-- The rest of `sa_expired`: the act of `expire`, then the job rescheduled or the SA
  removed. -/
  | fireExpire
  /-- `del_sa`. -/
  | delete

namespace SaExpiry

/-- The SA as `add_sa` installs it at time `now`, with its expiry job. -/
def init (sa : IpsecSa) (now : ℕ) (t : TimeLifetime) : SaExpiry :=
  ⟨sa, true, scheduleExpiration now t, none, none, []⟩

/-- The act of `expire` after a check: the flag set and the event raised, if the check
passed. -/
def raise (s : SaExpiry) (c : ExpireCheck) : SaExpiry :=
  if c.raises then { s with sa := s.sa.setExpired c.hard, events := s.events ++ [c.hard] } else s

/-- One step. A thread inside `expire` does not start another call; an `expire` check
reads the flags as they are when it runs. -/
def step (s : SaExpiry) : ExpiryAction → SaExpiry
  | .update bytes =>
    match s.packet with
    | some _ => s
    | none =>
      let sa := s.sa.count bytes
      { s with sa, packet := sa.limitReached.map fun hard => ⟨hard, sa.expireRaises hard⟩ }
  | .updateExpire =>
    match s.packet with
    | some c => { s.raise c with packet := none }
    | none => s
  | .fire =>
    match s.timer, s.job with
    | none, some job =>
      -- `sa_expired` finds the SA by pointer and SPI; a removed one ends the job
      if s.installed then
        { s with timer := some ⟨job.hardOffset == 0, s.sa.expireRaises (job.hardOffset == 0)⟩ }
      else { s with job := none }
    | _, _ => s
  | .fireExpire =>
    match s.timer, s.job with
    | some c, some job =>
      let s := { s.raise c with timer := none }
      if job.hardOffset ≠ 0 then { s with job := some ⟨job.due + job.hardOffset.toNat, 0⟩ }
      else { s with installed := false, job := none }
    | _, _ => s
  -- `del_sa` takes the mutex, which `sa_expired` holds throughout
  | .delete => if s.timer.isNone then { s with installed := false } else s

/-- A step that starts an `expire` call does so while the other thread is not inside
one. -/
def Serial (s : SaExpiry) : ExpiryAction → Prop
  | .update bytes => (s.sa.count bytes).limitReached = none ∨ s.timer = none
  | .fire => s.installed = false ∨ s.packet = none
  | _ => True

instance decSerial (s : SaExpiry) : (a : ExpiryAction) → Decidable (s.Serial a)
  | .update _ => inferInstanceAs (Decidable (_ ∨ _))
  | .fire => inferInstanceAs (Decidable (_ ∨ _))
  | .updateExpire | .fireExpire | .delete => isTrue trivial

/-- The events raised are those the flags record, a thread inside `expire` checked the
flags as they are, and at most one thread is inside. -/
structure Inv (s : SaExpiry) : Prop where
  events_eq : s.events = s.sa.flagEvents
  packet_checked : ∀ c ∈ s.packet, c.raises = s.sa.expireRaises c.hard
  timer_checked : ∀ c ∈ s.timer, c.raises = s.sa.expireRaises c.hard
  exclusive : s.packet = none ∨ s.timer = none

theorem init_inv {sa : IpsecSa} (hsoft : sa.softExpired = false) (hhard : sa.hardExpired = false)
    (now : ℕ) (t : TimeLifetime) : (init sa now t).Inv where
  events_eq := by simp [init, IpsecSa.flagEvents, hsoft, hhard]
  packet_checked := by simp [init]
  timer_checked := by simp [init]
  exclusive := .inl rfl

@[simp] theorem raise_sa (s : SaExpiry) (c : ExpireCheck) :
    (s.raise c).sa = if c.raises then s.sa.setExpired c.hard else s.sa := by
  unfold raise; split_ifs <;> rfl

@[simp] theorem raise_packet (s : SaExpiry) (c : ExpireCheck) : (s.raise c).packet = s.packet := by
  unfold raise; split_ifs <;> rfl

@[simp] theorem raise_timer (s : SaExpiry) (c : ExpireCheck) : (s.raise c).timer = s.timer := by
  unfold raise; split_ifs <;> rfl

/-- The act of a check made on the flags as they are raises the event the flags then
record. -/
theorem raise_events {s : SaExpiry} {c : ExpireCheck} (hev : s.events = s.sa.flagEvents)
    (hc : c.raises = s.sa.expireRaises c.hard) : (s.raise c).events = (s.raise c).sa.flagEvents := by
  unfold raise
  split_ifs with h
  · rw [hc] at h
    simp only [IpsecSa.flagEvents_setExpired h, hev]
  · exact hev

/-- **Every serial step keeps the invariant.** -/
theorem Inv.step {s : SaExpiry} (hinv : s.Inv) {a : ExpiryAction} (hser : s.Serial a) :
    (s.step a).Inv := by
  have ⟨hev, hpc, htc, hex⟩ := hinv
  cases a with
  | update bytes =>
    cases hp : s.packet with
    | some c => simpa [SaExpiry.step, hp] using hinv
    | none =>
      -- counting leaves the flags; the new check is made on them
      simp only [SaExpiry.step, hp]
      refine ⟨hev, ?_, htc, ?_⟩
      · intro c hc
        obtain ⟨hard, -, rfl⟩ := Option.mem_map.mp hc
        rfl
      · rcases hser with hnone | htimer
        · exact .inl (by simp [hnone])
        · exact .inr htimer
  | updateExpire =>
    cases hp : s.packet with
    | none => simpa [SaExpiry.step, hp] using hinv
    | some c =>
      -- the timer is not inside `expire` while the packet thread is
      have ht : s.timer = none := hex.resolve_left (by simp [hp])
      simp only [SaExpiry.step, hp]
      exact ⟨raise_events hev (hpc c hp), by simp, by simp [ht], .inl rfl⟩
  | fire =>
    cases ht : s.timer with
    | some c => simpa [SaExpiry.step, ht] using hinv
    | none =>
      cases hj : s.job with
      | none => simpa [SaExpiry.step, ht, hj] using hinv
      | some job =>
        by_cases hin : s.installed = true
        · have hp : s.packet = none := hser.resolve_left (by simp [hin])
          simp only [SaExpiry.step, ht, hj, hin, if_true]
          exact ⟨hev, hpc, by simp, .inl hp⟩
        · simp only [SaExpiry.step, ht, hj, hin]
          exact ⟨hev, hpc, by simp, .inr rfl⟩
  | fireExpire =>
    cases ht : s.timer with
    | none => simpa [SaExpiry.step, ht] using hinv
    | some c =>
      cases hj : s.job with
      | none => simpa [SaExpiry.step, ht, hj] using hinv
      | some job =>
        -- the packet thread is not inside `expire` while the timer is; rescheduling the job
        -- or removing the SA leaves the rest
        have hp : s.packet = none := hex.resolve_right (by simp [ht])
        have hev' := raise_events hev (htc c ht)
        simp only [SaExpiry.step, ht, hj]
        split_ifs <;> exact ⟨hev', by simp [hp], by simp, .inr rfl⟩
  | delete =>
    simp only [SaExpiry.step]
    split_ifs <;> exact ⟨hev, hpc, htc, hex⟩

/-- **Every serial run keeps the invariant.** -/
theorem Inv.run {s : SaExpiry} (hinv : s.Inv) {as : List ExpiryAction}
    (has : Allowed SaExpiry.step Serial s as) : (Run.run SaExpiry.step s as).Inv :=
  run_invariant (fun _ _ hs ha => hs.step ha) hinv has

/-- One `update_usestats` raises, as its check and act run in a row, the events
`usestatsEvents` gives. -/
theorem Inv.update_events {s : SaExpiry} (hinv : s.Inv) (hp : s.packet = none) (bytes : UInt32) :
    (Run.run SaExpiry.step s [.update bytes, .updateExpire]).events =
      s.events ++ usestatsEvents s.events (s.sa.count bytes) := by
  have hflags : (s.sa.count bytes).flagEvents = s.events := hinv.events_eq.symm
  rw [← hflags, usestatsEvents_flagEvents]
  simp only [Run.run_cons, Run.run_nil, SaExpiry.step, hp]
  cases hl : (s.sa.count bytes).limitReached with
  | none => simpa [SaExpiry.step] using hflags.symm
  | some hard =>
    simp only [Option.map_some, Option.getD_some, raise]
    split_ifs <;> simp [hflags]

/-- The packet thread's two steps, run in a row, are `update_usestats`. -/
theorem update_sa {s : SaExpiry} (hp : s.packet = none) (bytes : UInt32) :
    (Run.run SaExpiry.step s [.update bytes, .updateExpire]).sa = s.sa.updateUsestats bytes := by
  rw [IpsecSa.updateUsestats_eq_expire]
  simp only [Run.run_cons, Run.run_nil, SaExpiry.step, hp]
  cases hl : (s.sa.count bytes).limitReached with
  | none => rfl
  | some hard =>
    simp only [Option.map_some, raise_sa, IpsecSa.expire_eq_setExpired]

/-- A job that runs on its installed SA makes the first of its calls, at its time, and
leaves the others to the job it reschedules. -/
theorem fire_calls {s : SaExpiry} {job : ExpiryJob} (hin : s.installed = true) (hj : s.job = some job)
    (ht : s.timer = none) :
    ∃ call rest, job.calls = call :: rest ∧ call.1 = job.due ∧
      (Run.run SaExpiry.step s [.fire, .fireExpire]).sa = s.sa.expire call.2 ∧
      ((Run.run SaExpiry.step s [.fire, .fireExpire]).job.map ExpiryJob.calls).getD [] = rest := by
  simp only [Run.run_cons, Run.run_nil, SaExpiry.step, ht, hj, hin, if_true]
  by_cases hoff : job.hardOffset = 0
  · -- a hard call, after which the SA is removed
    refine ⟨(job.due, true), [], by simp [ExpiryJob.calls, hoff], rfl, ?_, ?_⟩ <;>
      simp [hoff, IpsecSa.expire_eq_setExpired]
  · -- a soft call, and the job rescheduled for the hard one
    have hsoft : (job.hardOffset == 0) = false := by simpa using hoff
    refine ⟨(job.due, false), [(job.due + job.hardOffset.toNat, true)], by simp [ExpiryJob.calls, hoff], rfl,
      ?_, ?_⟩ <;> simp [hoff, hsoft, IpsecSa.expire_eq_setExpired, ExpiryJob.calls]

end SaExpiry

/-- **An SA expires at most twice, soft before hard.** Along every run from a fresh SA in
which each expiry call runs to its end before the next action, the events raised are
none, one soft, one hard, or a soft then a hard one. A counted packet raises what the
limits say. Each call of the expiry job is due when it was planned, expires the SA as it
names and leaves the rest of the job. After a hard event neither lookup checks the SA
out. `schedule_expiration` plans one hard call, or a soft call and then a hard one, at
offsets cut to 32 bits. -/
theorem expiry_serial (sa : IpsecSa) (hsoft : sa.softExpired = false) (hhard : sa.hardExpired = false)
    (now : ℕ) (t : TimeLifetime) (as : List ExpiryAction)
    (has : Allowed SaExpiry.step SaExpiry.Serial (SaExpiry.init sa now t) as) :
    let s := Run.run SaExpiry.step (SaExpiry.init sa now t) as
    (s.events = [] ∨ s.events = [false] ∨ s.events = [true] ∨ s.events = [false, true]) ∧
    (∀ bytes, s.packet = none →
      (Run.run SaExpiry.step s [.update bytes, .updateExpire]).sa = s.sa.updateUsestats bytes ∧
      (Run.run SaExpiry.step s [.update bytes, .updateExpire]).events =
        s.events ++ usestatsEvents s.events (s.sa.count bytes)) ∧
    (∀ job, s.installed = true → s.job = some job → s.timer = none →
      ∃ call rest, job.calls = call :: rest ∧ call.1 = job.due ∧
        (Run.run SaExpiry.step s [.fire, .fireExpire]).sa = s.sa.expire call.2 ∧
        ((Run.run SaExpiry.step s [.fire, .fireExpire]).job.map ExpiryJob.calls).getD [] = rest) ∧
    (true ∈ s.events → ∀ (sas : List IpsecSa) (spi : UInt32) (dst : Host) (reqid : UInt32) (inbound : Bool)
      (i : ℕ), checkoutBySpi sas spi dst ≠ some (i, s.sa) ∧ checkoutByReqid sas reqid inbound ≠ some (i, s.sa)) ∧
    ((scheduleExpiration now t).map ExpiryJob.calls).getD [] =
      if t.life = 0 then []
      else if t.rekey = 0 ∨ t.life ≤ t.rekey then [(now + t.life.toNat % 2 ^ 32, true)]
      else if (t.life.toNat - t.rekey.toNat) % 2 ^ 32 = 0 then [(now + t.rekey.toNat % 2 ^ 32, true)]
      else [(now + t.rekey.toNat % 2 ^ 32, false),
        (now + t.rekey.toNat % 2 ^ 32 + (t.life.toNat - t.rekey.toNat) % 2 ^ 32, true)] := by
  intro s
  have hinv : s.Inv := (SaExpiry.init_inv hsoft hhard now t).run has
  refine ⟨hinv.events_eq ▸ s.sa.flagEvents_cases, fun bytes hp => ⟨SaExpiry.update_sa hp bytes,
    hinv.update_events hp bytes⟩, fun _ hin hj ht => SaExpiry.fire_calls hin hj ht, ?_, scheduleExpiration_calls now t⟩
  -- a hard event leaves the flag that both lookups test
  intro hmem sas spi dst reqid inbound i
  have hhard' : s.sa.hardExpired = true := by
    rw [IpsecSa.hardExpired_iff_mem_flagEvents, ← hinv.events_eq]
    exact hmem
  constructor
  · intro h
    have := (checkoutBySpi_eq_some h).2.2.2
    simp [hhard'] at this
  · intro h
    have := (checkoutByReqid_eq_some h).2.2.2.1
    simp [hhard'] at this

theorem expiry_serial_fresh :
    (exampleSa 0x2000 gateway client true).softExpired = false ∧
      (exampleSa 0x2000 gateway client true).hardExpired = false ∧
      Allowed SaExpiry.step SaExpiry.Serial (SaExpiry.init (exampleSa 0x2000 gateway client true) 0 ⟨10, 5⟩)
        [.update 100, .updateExpire, .fire, .fireExpire] ∧
      (Run.run SaExpiry.step (SaExpiry.init (exampleSa 0x2000 gateway client true) 0 ⟨10, 5⟩)
        [.update 100, .updateExpire, .fire, .fireExpire]).events ∈ [[], [false], [true], [false, true]] := by
  have hrun : Allowed SaExpiry.step SaExpiry.Serial (SaExpiry.init (exampleSa 0x2000 gateway client true) 0 ⟨10, 5⟩)
      [.update 100, .updateExpire, .fire, .fireExpire] := by decide
  refine ⟨rfl, rfl, hrun, ?_⟩
  have h := (expiry_serial (exampleSa 0x2000 gateway client true) rfl rfl 0 ⟨10, 5⟩ _ hrun).1
  simpa using h

/-- An SA rekeyed after one packet, hard expired after ten seconds. -/
def rekeyedSa : IpsecSa := { exampleSa 0x2000 gateway client true with lifetime := ⟨0, 1, 0, 0⟩ }

/-- **Where the expiry events go wrong.** A `life` of `2 ^ 32 + 1` seconds with a `rekey` at
`1` leaves `hard_offset`, `life - rekey = 2 ^ 32` in a `uint32_t`, at `0`: the job due at
one second is the hard expiry, and the SA is hard expired and removed then without a
rekey, where `schedule_expiration` means to schedule the rekey first and the hard expiry
`life - rekey` later. And where the threads' `expire` calls overlap, the packet thread
passes its soft check, the timer raises the hard event, and the packet thread then raises
the soft one. -/
theorem expiry_events_diverge :
    ((SaExpiry.init (exampleSa 0x2000 gateway client true) 0 ⟨0x100000001, 1⟩).job.map ExpiryJob.calls).getD [] =
        [(1, true)] ∧
      (Run.run SaExpiry.step (SaExpiry.init (exampleSa 0x2000 gateway client true) 0 ⟨0x100000001, 1⟩)
        [.fire, .fireExpire]).events = [true] ∧
      (Run.run SaExpiry.step (SaExpiry.init (exampleSa 0x2000 gateway client true) 0 ⟨0x100000001, 1⟩)
        [.fire, .fireExpire]).installed = false ∧
    (Run.run SaExpiry.step (SaExpiry.init rekeyedSa 0 ⟨10, 0⟩) [.update 100, .fire, .fireExpire, .updateExpire]).events =
      [true, false] := by
  decide

end VpnClient.Ipsec
