import LogGenerator.Application.Framing

/-!
# The newline-packed UDP loop

One iteration of the packed branch of `run_worker` builds a batch of datagrams
from the stream of rendered payloads. A payload that does not fit its packet
and a packet that does not fit its batch are held over to the next iteration.
`position` counts the payloads rendered so far: the worker's `selection` and
`clock` only decide what the stream contains.
-/

namespace LogGenerator
namespace Application

open Ascii Domain

def clamp (value low high : ℕ) : ℕ :=
  if value < low then low else if high < value then high else value

def packedEventLimit : ℕ := 256
def packedDatagramTarget : ℕ := 60 * 1024
def integratedBatchTarget : ℕ := 600 * 1024
def maximumUdpPayload : ℕ := 65507
def sizeMax : ℕ := 2 ^ 64 - 1

def rateLimitedEventTarget (quota : ℕ) : ℕ :=
  if quota = 0 then sizeMax else clamp (quota / 200) 1 sizeMax

theorem rateLimitedEventTarget_pos (quota : ℕ) : 0 < rateLimitedEventTarget quota := by
  unfold rateLimitedEventTarget clamp sizeMax
  split_ifs <;> omega

/-- What one call of `send` or `send_batch` receives, and what is added to the
three local counters when the call returns `Sent`. -/
structure Batch where
  views : List Bytes := []
  events : ℕ := 0
  datagrams : ℕ := 0
  bytes : ℕ := 0

/-- The variables that outlive an iteration; `pendingPayload` is `none` when
`has_pending_payload` is false. -/
structure PackState where
  pendingPayload : Option Bytes := none
  pendingPacket : Bytes := []
  pendingPacketEvents : ℕ := 0
  position : ℕ := 0

structure Filling where
  packet : Bytes := []
  packetEvents : ℕ := 0
  pendingPayload : Option Bytes := none
  position : ℕ

/-- The innermost loop: frames are appended until the packet is full. -/
def fillPacket (payload : ℕ → Bytes) (events target : ℕ) (f : Filling) : Except String Filling :=
  if f.packetEvents < packedEventLimit ∧ events + f.packetEvents < target then
    let next := payload f.position
    let framedSize := newlineFrameSize next
    if maximumUdpPayload < framedSize then
      .error "A newline-framed log exceeds the maximum UDP payload"
    else if 0 < f.packetEvents ∧ packedDatagramTarget < f.packet.length + framedSize then
      .ok { f with pendingPayload := some next, position := f.position + 1 }
    else
      fillPacket payload events target
        { f with
          packet := appendFrame f.packet next .newline
          packetEvents := f.packetEvents + 1
          position := f.position + 1 }
  else .ok f
termination_by packedEventLimit - f.packetEvents

/-- A new packet starts with the payload held over, if there is one. -/
def startPacket (st : PackState) : Filling :=
  match st.pendingPayload with
  | some held =>
    { packet := appendFrame [] held .newline, packetEvents := 1, position := st.position }
  | none => { position := st.position }

/-- The packet held over, or else a new one. -/
def nextPacket (payload : ℕ → Bytes) (events target : ℕ) (st : PackState) :
    Except String (Bytes × ℕ × PackState) :=
  if st.pendingPacket ≠ [] then
    .ok (st.pendingPacket, st.pendingPacketEvents,
      { st with pendingPacket := [], pendingPacketEvents := 0 })
  else
    match fillPacket payload events target (startPacket st) with
    | .error e => .error e
    | .ok f =>
      .ok (f.packet, f.packetEvents,
        { pendingPayload := f.pendingPayload, pendingPacket := [],
          pendingPacketEvents := st.pendingPacketEvents, position := f.position })

theorem appendFrame_newline_ne_nil (packet payload : Bytes) :
    appendFrame packet payload .newline ≠ [] := by
  simp [appendFrame_newline]

theorem fillPacket_ne_nil {payload : ℕ → Bytes} {events target : ℕ} {f f' : Filling}
    (h : fillPacket payload events target f = .ok f')
    (hf : f.packet ≠ [] ∨ f.packetEvents = 0 ∧ events < target) : f'.packet ≠ [] := by
  fun_induction fillPacket payload events target f with
  | case1 f hguard next size hbig => cases h
  | case2 f hguard next size hbig hfull =>
    cases h
    rcases hf with hf | hf
    · exact hf
    · omega
  | case3 f hguard next size hbig hfull ih =>
    exact ih h (Or.inl (appendFrame_newline_ne_nil _ _))
  | case4 f hguard =>
    cases h
    rcases hf with hf | hf
    · exact hf
    · exact absurd ⟨by rw [hf.1]; decide, by omega⟩ hguard

theorem startPacket_cases (st : PackState) :
    (startPacket st).packet ≠ [] ∨ (startPacket st).packetEvents = 0 := by
  unfold startPacket
  cases st.pendingPayload with
  | none => exact Or.inr rfl
  | some held => exact Or.inl (appendFrame_newline_ne_nil _ _)

theorem nextPacket_ne_nil {payload : ℕ → Bytes} {events target : ℕ} {st st' : PackState}
    {packet : Bytes} {n : ℕ} (h : nextPacket payload events target st = .ok (packet, n, st'))
    (hevents : events < target) : packet ≠ [] := by
  unfold nextPacket at h
  split_ifs at h with hp
  · cases h
    exact hp
  · cases hf : fillPacket payload events target (startPacket st) with
    | error e => simp [hf] at h
    | ok f =>
      simp only [hf, Except.ok.injEq, Prod.mk.injEq] at h
      rw [← h.1]
      exact fillPacket_ne_nil hf ((startPacket_cases st).imp_right fun h0 => ⟨h0, hevents⟩)

structure PacketStorage where
  packets : List Bytes := []
  batchBytes : ℕ := 0
  events : ℕ := 0

/-- The batch loop; it stops at the byte or event limit, or holds a packet over. -/
def packBatch (payload : ℕ → Bytes) (target : ℕ) (b : PacketStorage) (st : PackState) :
    Except String (PacketStorage × PackState) :=
  if _guard : b.batchBytes < integratedBatchTarget ∧ b.events < target then
    match _next : nextPacket payload b.events target st with
    | .error e => .error e
    | .ok (packet, packetEvents, st') =>
      if b.packets ≠ [] ∧ integratedBatchTarget < b.batchBytes + packet.length then
        .ok (b, { st' with pendingPacket := packet, pendingPacketEvents := packetEvents })
      else
        packBatch payload target
          { packets := b.packets ++ [packet]
            batchBytes := b.batchBytes + packet.length
            events := b.events + packetEvents } st'
  else .ok (b, st)
termination_by integratedBatchTarget - b.batchBytes
decreasing_by
  have hpos := List.length_pos_iff.mpr (nextPacket_ne_nil _next _guard.2)
  omega

theorem packBatch_eq (payload : ℕ → Bytes) (target : ℕ) (b : PacketStorage) (st : PackState) :
    packBatch payload target b st =
      if b.batchBytes < integratedBatchTarget ∧ b.events < target then
        match nextPacket payload b.events target st with
        | .error e => .error e
        | .ok (packet, packetEvents, st') =>
          if b.packets ≠ [] ∧ integratedBatchTarget < b.batchBytes + packet.length then
            .ok (b, { st' with pendingPacket := packet, pendingPacketEvents := packetEvents })
          else
            packBatch payload target
              { packets := b.packets ++ [packet]
                batchBytes := b.batchBytes + packet.length
                events := b.events + packetEvents } st'
      else .ok (b, st) := by
  rw [packBatch]
  by_cases hguard : b.batchBytes < integratedBatchTarget ∧ b.events < target
  · rw [dif_pos hguard, if_pos hguard]
    split <;> rename_i h <;> simp only [h]
  · rw [dif_neg hguard, if_neg hguard]

/-- What is handed to `send_batch` and added to the counters. -/
def PacketStorage.batch (b : PacketStorage) : Batch :=
  { views := b.packets
    events := b.events
    datagrams := b.packets.length
    bytes := b.batchBytes }

def packedIteration (payload : ℕ → Bytes) (quota : ℕ) (st : PackState) :
    Except String (Batch × PackState) :=
  match packBatch payload (rateLimitedEventTarget quota) {} st with
  | .error e => .error e
  | .ok (b, st') => .ok (b.batch, st')

/-- `n` iterations without a stop request or a failed send. -/
def packedLoop (payload : ℕ → Bytes) (quota : ℕ) : ℕ → PackState →
    Except String (List Batch × PackState)
  | 0, st => .ok ([], st)
  | n + 1, st =>
    match packedIteration payload quota st with
    | .error e => .error e
    | .ok (b, st') =>
      match packedLoop payload quota n st' with
      | .error e => .error e
      | .ok (bs, st'') => .ok (b :: bs, st'')

/-- `n` payloads of the stream from index `k` on. -/
def segment (payload : ℕ → Bytes) (k n : ℕ) : List Bytes :=
  (List.range n).map fun i => payload (k + i)

theorem segment_succ (payload : ℕ → Bytes) (k n : ℕ) :
    segment payload k (n + 1) = segment payload k n ++ [payload (k + n)] := by
  simp [segment, List.range_succ]

theorem segment_add (payload : ℕ → Bytes) (k m n : ℕ) :
    segment payload k (m + n) = segment payload k m ++ segment payload (k + m) n := by
  simp [segment, List.range_add, Nat.add_assoc]

@[simp] theorem length_segment (payload : ℕ → Bytes) (k n : ℕ) :
    (segment payload k n).length = n := by
  simp [segment]

/-- The datagram that carries a group of events. -/
def packetOf (group : List Bytes) : Bytes := group.flatMap newlineFrame

theorem packetOf_concat (group : List Bytes) (payload : Bytes) :
    packetOf (group ++ [payload]) = appendFrame (packetOf group) payload .newline := by
  rw [appendFrame_eq]
  simp [packetOf, newlineFrame]

theorem length_packetOf_concat (group : List Bytes) (payload : Bytes) :
    (packetOf (group ++ [payload])).length =
      (packetOf group).length + newlineFrameSize payload := by
  simp [packetOf, length_newlineFrame]

structure ValidPacket (group : List Bytes) : Prop where
  nonempty : 1 ≤ group.length
  few : group.length ≤ packedEventLimit
  small : (packetOf group).length ≤ packedDatagramTarget ∨ group.length = 1

/-- What a batch of packets, one for each group, promises. -/
structure ValidBatch (target : ℕ) (b : Batch) (groups : List (List Bytes)) : Prop where
  views : b.views = groups.map packetOf
  packets : ∀ group ∈ groups, ValidPacket group
  nonempty : groups ≠ []
  events : b.events = groups.flatten.length
  datagrams : b.datagrams = groups.length
  bytes : b.bytes = b.views.flatten.length
  byteLimit : b.bytes ≤ integratedBatchTarget
  eventLimit : b.events ≤ target

/-- The payloads rendered but not yet sent are those from index `k` on: first the
packet held over, then the payload held over. -/
structure Held (payload : ℕ → Bytes) (target : ℕ) (st : PackState) (k : ℕ) : Prop where
  packet : st.pendingPacket = packetOf (segment payload k st.pendingPacketEvents)
  valid : 0 < st.pendingPacketEvents → ValidPacket (segment payload k st.pendingPacketEvents)
  events : st.pendingPacketEvents ≤ target
  next : st.pendingPayload.toList =
    segment payload (k + st.pendingPacketEvents) (st.position - (k + st.pendingPacketEvents))
  position : k + st.pendingPacketEvents ≤ st.position

theorem Held.initial (payload : ℕ → Bytes) (target : ℕ) : Held payload target {} 0 :=
  ⟨rfl, fun h => absurd h (lt_irrefl 0), Nat.zero_le _, rfl, le_rfl⟩

/-- The frames held over are the next ones of the stream. -/
theorem Held.frames {payload : ℕ → Bytes} {target : ℕ} {st : PackState} {k : ℕ}
    (h : Held payload target st k) :
    st.pendingPacket ++ st.pendingPayload.toList.flatMap newlineFrame =
      (segment payload k (st.position - k)).flatMap newlineFrame := by
  have hp := h.position
  have hn : st.position - k =
      st.pendingPacketEvents + (st.position - (k + st.pendingPacketEvents)) := by omega
  rw [hn, segment_add, List.flatMap_append, ← h.next, h.packet]
  rfl

/-- The packet under construction in `fillPacket`, whose group starts at index `k`. -/
structure FillInvariant (payload : ℕ → Bytes) (events target : ℕ) (f : Filling) (k : ℕ) :
    Prop where
  packet : f.packet = packetOf (segment payload k f.packetEvents)
  position : f.position = k + f.packetEvents
  pending : f.pendingPayload = none
  few : f.packetEvents ≤ packedEventLimit
  target_le : events + f.packetEvents ≤ target
  small : f.packet.length ≤ packedDatagramTarget ∨ f.packetEvents ≤ 1

/-- A finished packet and the payload that did not fit it. -/
structure Filled (payload : ℕ → Bytes) (events target : ℕ) (f : Filling) (k : ℕ) : Prop where
  packet : f.packet = packetOf (segment payload k f.packetEvents)
  valid : ValidPacket (segment payload k f.packetEvents)
  target_le : events + f.packetEvents ≤ target
  next : f.pendingPayload.toList =
    segment payload (k + f.packetEvents) (f.position - (k + f.packetEvents))
  position : k + f.packetEvents ≤ f.position

variable {payload : ℕ → Bytes} {target : ℕ}

theorem FillInvariant.filled {events : ℕ} {f : Filling} {k : ℕ}
    (h : FillInvariant payload events target f k) (hpos : 0 < f.packetEvents) :
    Filled payload events target f k := by
  refine ⟨h.packet, ⟨by rwa [length_segment], by simpa using h.few, ?_⟩, h.target_le, ?_, ?_⟩
  · rw [← h.packet, length_segment]
    exact h.small.imp_right fun hle => by omega
  · simp [h.pending, h.position, segment]
  · rw [h.position]

/-- With payloads that fit a datagram, the innermost loop ends with a finished packet. -/
theorem fillPacket_spec (hfit : ∀ i, newlineFrameSize (payload i) ≤ maximumUdpPayload)
    {events : ℕ} {f : Filling} {k : ℕ} (hf : FillInvariant payload events target f k)
    (hstart : 0 < f.packetEvents ∨ events < target) :
    ∃ f', fillPacket payload events target f = .ok f' ∧ Filled payload events target f' k := by
  fun_induction fillPacket payload events target f with
  | case1 f hguard next size hbig =>
    exact absurd (hfit f.position) (not_le.mpr hbig)
  | case2 f hguard next size hbig hfull =>
    have hfilled := hf.filled hfull.1
    refine ⟨_, rfl, hfilled.packet, hfilled.valid, hfilled.target_le, ?_, ?_⟩
    · simp [hf.position, segment, next]
    · simp only [hf.position]
      omega
  | case3 f hguard next size hbig hfull ih =>
    have hnext : next = payload (k + f.packetEvents) := by simp only [next, hf.position]
    have hpacket : appendFrame f.packet next .newline =
        packetOf (segment payload k (f.packetEvents + 1)) := by
      rw [segment_succ, packetOf_concat, ← hf.packet, hnext]
    refine ih ⟨hpacket, ?_, hf.pending, hguard.1, ?_, ?_⟩ (Or.inl (Nat.succ_pos _))
    · simp only [hf.position, Nat.add_assoc]
    · simp only
      omega
    · rcases Nat.eq_zero_or_pos f.packetEvents with h0 | hpos
      · exact Or.inr (by simp [h0])
      · left
        rw [hpacket, segment_succ, length_packetOf_concat, ← hf.packet, ← hnext]
        omega
  | case4 f hguard =>
    refine ⟨f, rfl, hf.filled ?_⟩
    rcases hstart with hpos | hlt
    · exact hpos
    · by_contra h0
      exact hguard ⟨by rw [Nat.eq_zero_of_not_pos h0]; decide, by omega⟩

theorem packetOf_eq_nil {group : List Bytes} : packetOf group = [] ↔ group = [] := by
  constructor
  · intro h
    cases group with
    | nil => rfl
    | cons payload group =>
      simp only [packetOf, List.flatMap_cons, List.append_eq_nil_iff] at h
      exact absurd h.1 (newlineFrame_ne_nil payload)
  · rintro rfl
    rfl

theorem Held.pendingPacket_eq_nil {st : PackState} {k : ℕ} (h : Held payload target st k) :
    st.pendingPacket = [] ↔ st.pendingPacketEvents = 0 := by
  rw [h.packet, packetOf_eq_nil, ← List.length_eq_zero_iff, length_segment]

/-- A new packet starts in the invariant, with the payload held over as its first event. -/
theorem startPacket_spec {events k : ℕ} {st : PackState} (hheld : Held payload target st k)
    (hevents : events < target) (hnone : st.pendingPacketEvents = 0) :
    FillInvariant payload events target (startPacket st) k := by
  have hnext := hheld.next
  have hpos := hheld.position
  rw [hnone, Nat.add_zero] at hnext hpos
  have hlen := congrArg List.length hnext
  rw [length_segment] at hlen
  unfold startPacket
  cases hp : st.pendingPayload with
  | none =>
    simp only [hp, Option.toList_none, List.length_nil] at hlen
    refine ⟨rfl, ?_, rfl, Nat.zero_le _, by simpa using hevents.le, Or.inr (Nat.zero_le 1)⟩
    simp only
    omega
  | some held =>
    simp only [hp, Option.toList_some, List.length_singleton] at hlen
    rw [hp, ← hlen] at hnext
    have hheld' : held = payload k := by simpa [segment] using hnext
    refine ⟨?_, ?_, rfl, Nat.le_of_ble_eq_true rfl, hevents, Or.inr le_rfl⟩
    · simp [hheld', segment, packetOf, newlineFrame]
    · simp only
      omega

theorem nextPacket_spec (hfit : ∀ i, newlineFrameSize (payload i) ≤ maximumUdpPayload)
    {events k : ℕ} {st : PackState} (hheld : Held payload target st k) (hevents : events < target)
    (hfirst : events + st.pendingPacketEvents ≤ target) :
    ∃ n st', nextPacket payload events target st = .ok (packetOf (segment payload k n), n, st') ∧
      ValidPacket (segment payload k n) ∧ events + n ≤ target ∧
      Held payload target st' (k + n) ∧ st'.pendingPacketEvents = 0 := by
  unfold nextPacket
  by_cases hp : st.pendingPacket = []
  · have hnone := hheld.pendingPacket_eq_nil.mp hp
    obtain ⟨f, hok, hf⟩ := fillPacket_spec hfit (startPacket_spec hheld hevents hnone)
      (Or.inr hevents)
    refine ⟨f.packetEvents, { pendingPayload := f.pendingPayload, position := f.position }, ?_,
      hf.valid, hf.target_le, ⟨rfl, fun h => absurd h (lt_irrefl 0), Nat.zero_le _, ?_, ?_⟩, rfl⟩
    · simp [hp, hok, hf.packet, hnone]
    · simpa using hf.next
    · simpa using hf.position
  · have hsome : 0 < st.pendingPacketEvents := by
      rw [hheld.pendingPacket_eq_nil] at hp
      omega
    refine ⟨st.pendingPacketEvents, { st with pendingPacket := [], pendingPacketEvents := 0 }, ?_,
      hheld.valid hsome, hfirst, ⟨rfl, fun h => absurd h (lt_irrefl 0), Nat.zero_le _, ?_, ?_⟩, rfl⟩
    · simp [hp, ← hheld.packet]
    · simpa using hheld.next
    · simpa using hheld.position

theorem ValidPacket.length_le (hfit : ∀ i, newlineFrameSize (payload i) ≤ maximumUdpPayload)
    {k n : ℕ} (h : ValidPacket (segment payload k n)) :
    (packetOf (segment payload k n)).length ≤ integratedBatchTarget := by
  rcases h.small with hs | hs
  · exact hs.trans (by decide)
  · rw [length_segment] at hs
    have hone := hfit k
    subst hs
    simp only [segment, packetOf, List.range_one, List.map_singleton, Nat.add_zero,
      List.flatMap_singleton, length_newlineFrame]
    exact hone.trans (by decide)

/-- The batch under construction: its packets carry the groups, which are the
payloads from index `k` on. -/
structure Stored (payload : ℕ → Bytes) (target k : ℕ) (b : PacketStorage)
    (groups : List (List Bytes)) : Prop where
  packets : b.packets = groups.map packetOf
  valid : ∀ group ∈ groups, ValidPacket group
  events : groups.flatten = segment payload k b.events
  bytes : b.batchBytes = b.packets.flatten.length
  byteLimit : b.batchBytes ≤ integratedBatchTarget
  eventLimit : b.events ≤ target

theorem Stored.initial (payload : ℕ → Bytes) (target k : ℕ) : Stored payload target k {} [] :=
  ⟨rfl, by simp, rfl, rfl, Nat.zero_le _, Nat.zero_le _⟩

theorem Stored.push {k n : ℕ} {b : PacketStorage} {groups : List (List Bytes)}
    (h : Stored payload target k b groups) (hvalid : ValidPacket (segment payload (k + b.events) n))
    (hbytes : b.batchBytes + (packetOf (segment payload (k + b.events) n)).length ≤
      integratedBatchTarget) (hevents : b.events + n ≤ target) :
    Stored payload target k
      { packets := b.packets ++ [packetOf (segment payload (k + b.events) n)]
        batchBytes := b.batchBytes + (packetOf (segment payload (k + b.events) n)).length
        events := b.events + n } (groups ++ [segment payload (k + b.events) n]) := by
  refine ⟨by simp [h.packets], ?_, ?_, ?_, hbytes, hevents⟩
  · intro group hg
    rcases List.mem_append.mp hg with hg | hg
    · exact h.valid group hg
    · exact List.mem_singleton.mp hg ▸ hvalid
  · simp [h.events, segment_add]
  · simp [h.bytes]

/-- The batch loop returns a batch of at least one packet and holds the following
payloads over. -/
theorem packBatch_spec (hfit : ∀ i, newlineFrameSize (payload i) ≤ maximumUdpPayload)
    {k : ℕ} {b : PacketStorage} {st : PackState} {groups : List (List Bytes)}
    (hb : Stored payload target k b groups) (hst : Held payload target st (k + b.events))
    (hfirst : b.events + st.pendingPacketEvents ≤ target)
    (hstart : groups ≠ [] ∨ b.batchBytes < integratedBatchTarget ∧ b.events < target) :
    ∃ b' st' groups', packBatch payload target b st = .ok (b', st') ∧ groups' ≠ [] ∧
      Stored payload target k b' groups' ∧ Held payload target st' (k + b'.events) := by
  induction hm : integratedBatchTarget - b.batchBytes using Nat.strong_induction_on
    generalizing b st groups with
  | _ m ih =>
    rw [packBatch_eq]
    by_cases hguard : b.batchBytes < integratedBatchTarget ∧ b.events < target
    · obtain ⟨n, st', hok, hvalid, hevents, hheld, hzero⟩ :=
        nextPacket_spec hfit hst hguard.2 hfirst
      rw [if_pos hguard, hok]
      simp only
      by_cases hfull : b.packets ≠ [] ∧ integratedBatchTarget <
          b.batchBytes + (packetOf (segment payload (k + b.events) n)).length
      · have hgroups : groups ≠ [] := by
          rintro rfl
          exact hfull.1 (by simp [hb.packets])
        refine ⟨b, _, groups, by rw [if_pos hfull], hgroups, hb, ⟨rfl, fun _ => hvalid, ?_, ?_, ?_⟩⟩
        · exact (Nat.le_add_left n b.events).trans hevents
        · simpa [hzero] using hheld.next
        · simpa [hzero] using hheld.position
      · have hbytes : b.batchBytes + (packetOf (segment payload (k + b.events) n)).length ≤
            integratedBatchTarget := by
          by_cases hp : b.packets = []
          · have hzeroBytes : b.batchBytes = 0 := by simp [hb.bytes, hp]
            rw [hzeroBytes, Nat.zero_add]
            exact hvalid.length_le hfit
          · exact not_lt.mp fun h => hfull ⟨hp, h⟩
        have hpos : 0 < (packetOf (segment payload (k + b.events) n)).length := by
          rw [List.length_pos_iff, ne_eq, packetOf_eq_nil, ← List.length_eq_zero_iff]
          have := hvalid.nonempty
          omega
        rw [if_neg hfull]
        refine ih _ ?_ (hb.push hvalid hbytes hevents) ?_ ?_ (Or.inl (by simp)) rfl
        · exact hm ▸ Nat.sub_lt_sub_left hguard.1 (Nat.lt_add_of_pos_right hpos)
        · simpa [Nat.add_assoc] using hheld
        · simpa [hzero] using hevents
    · rw [if_neg hguard]
      exact ⟨b, st, groups, rfl, hstart.resolve_right hguard, hb, hst⟩

theorem Stored.validBatch {k : ℕ} {b : PacketStorage} {groups : List (List Bytes)}
    (h : Stored payload target k b groups) (hne : groups ≠ []) :
    ValidBatch target b.batch groups :=
  ⟨h.packets, h.valid, hne, by simp [h.events, PacketStorage.batch],
    by simp [h.packets, PacketStorage.batch], h.bytes, h.byteLimit, h.eventLimit⟩

theorem packedIteration_spec (hfit : ∀ i, newlineFrameSize (payload i) ≤ maximumUdpPayload)
    (quota : ℕ) {k : ℕ} {st : PackState}
    (hst : Held payload (rateLimitedEventTarget quota) st k) :
    ∃ b st' groups, packedIteration payload quota st = .ok (b, st') ∧
      ValidBatch (rateLimitedEventTarget quota) b groups ∧
      groups.flatten = segment payload k b.events ∧
      Held payload (rateLimitedEventTarget quota) st' (k + b.events) := by
  obtain ⟨b, st', groups, hok, hne, hb, hheld⟩ := packBatch_spec hfit
    (Stored.initial payload (rateLimitedEventTarget quota) k) hst
    (by simpa using hst.events)
    (Or.inr ⟨by decide, rateLimitedEventTarget_pos quota⟩)
  exact ⟨b.batch, st', groups, by simp only [packedIteration, hok], hb.validBatch hne, hb.events,
    hheld⟩

/-- The run lemma: `n` iterations from a state that holds over the payloads from `k` on. -/
theorem packedLoop_spec (hfit : ∀ i, newlineFrameSize (payload i) ≤ maximumUdpPayload)
    (quota n : ℕ) {k : ℕ} {st : PackState}
    (hst : Held payload (rateLimitedEventTarget quota) st k) :
    ∃ batches st' groups k', packedLoop payload quota n st = .ok (batches, st') ∧
      batches.length = n ∧
      List.Forall₂ (ValidBatch (rateLimitedEventTarget quota)) batches groups ∧
      groups.flatten.flatten = segment payload k k' ∧
      Held payload (rateLimitedEventTarget quota) st' (k + k') := by
  induction n generalizing k st with
  | zero => exact ⟨[], st, [], 0, rfl, rfl, .nil, rfl, hst⟩
  | succ n ih =>
    obtain ⟨b, st₁, g, hok, hvalid, hseg, hheld⟩ := packedIteration_spec hfit quota hst
    obtain ⟨bs, st₂, gs, k', hoks, hlen, hvalids, hsegs, hheld'⟩ := ih hheld
    refine ⟨b :: bs, st₂, g :: gs, b.events + k', ?_, by simp [hlen], .cons hvalid hvalids, ?_, ?_⟩
    · simp only [packedLoop, hok, hoks]
    · simp only [List.flatten_cons, List.flatten_append, hseg, hsegs, segment_add]
    · simpa [Nat.add_assoc] using hheld'

theorem ValidBatch.flatten_views {b : Batch} {groups : List (List Bytes)}
    (h : ValidBatch target b groups) : b.views.flatten = groups.flatten.flatMap newlineFrame := by
  rw [h.views, ← List.flatMap_def, List.flatten_eq_flatMap, List.flatMap_assoc]
  rfl

theorem flatten_views_of_forall₂ {batches : List Batch} {groups : List (List (List Bytes))}
    (h : List.Forall₂ (ValidBatch target) batches groups) :
    (batches.flatMap Batch.views).flatten = groups.flatten.flatten.flatMap newlineFrame := by
  induction h with
  | nil => rfl
  | cons hvalid _ ih =>
    simp only [List.flatMap_cons, List.flatten_append, List.flatten_cons, List.flatMap_append, ih,
      hvalid.flatten_views]

/-- Any number of iterations sends a prefix of the stream and holds the next
payloads over; every packet, batch and counter is within its limits and exact. -/
theorem packedLoop_exact (payload : ℕ → Bytes)
    (hfit : ∀ i, newlineFrameSize (payload i) ≤ maximumUdpPayload) (quota n : ℕ) :
    ∃ batches st groups k, packedLoop payload quota n {} = .ok (batches, st) ∧
      batches.length = n ∧
      List.Forall₂ (ValidBatch (rateLimitedEventTarget quota)) batches groups ∧
      groups.flatten.flatten = segment payload 0 k ∧
      (batches.flatMap Batch.views).flatten = (segment payload 0 k).flatMap newlineFrame ∧
      st.pendingPacket ++ st.pendingPayload.toList.flatMap newlineFrame =
        (segment payload k (st.position - k)).flatMap newlineFrame := by
  obtain ⟨batches, st, groups, k, hok, hlen, hvalid, hseg, hheld⟩ :=
    packedLoop_spec hfit quota n (Held.initial payload (rateLimitedEventTarget quota))
  rw [Nat.zero_add] at hheld
  refine ⟨batches, st, groups, k, hok, hlen, hvalid, hseg, ?_, hheld.frames⟩
  rw [flatten_views_of_forall₂ hvalid, hseg]

section

variable {wide : Bytes} {events position pendingPacketEvents : ℕ}

/-- Two payloads of this size do not fit a packet. -/
theorem fillPacket_wide (hwide : newlineFrameSize wide = 50001) (hroom : events + 1 < sizeMax) :
    fillPacket (fun _ => wide) events sizeMax
      { packet := newlineFrame wide, packetEvents := 1, position := position } =
      .ok { packet := newlineFrame wide, packetEvents := 1, pendingPayload := some wide,
            position := position + 1 } := by
  have hfew : 1 < packedEventLimit := by decide
  rw [fillPacket, if_pos ⟨hfew, hroom⟩]
  simp [hwide, length_newlineFrame, maximumUdpPayload, packedDatagramTarget]

theorem nextPacket_wide (hwide : newlineFrameSize wide = 50001) (hroom : events + 1 < sizeMax) :
    nextPacket (fun _ => wide) events sizeMax
      { pendingPayload := some wide, pendingPacketEvents := pendingPacketEvents,
        position := position } =
      .ok (newlineFrame wide, 1,
        { pendingPayload := some wide, pendingPacketEvents := pendingPacketEvents,
          position := position + 1 }) := by
  have hstart : startPacket
      { pendingPayload := some wide, pendingPacketEvents := pendingPacketEvents,
        position := position } =
      { packet := newlineFrame wide, packetEvents := 1, position := position } := rfl
  rw [nextPacket, if_neg (by simp), hstart, fillPacket_wide hwide hroom]

/-- A batch that holds `m` packets. -/
def wideStorage (wide : Bytes) (m : ℕ) : PacketStorage where
  packets := List.replicate m (newlineFrame wide)
  batchBytes := m * 50001
  events := m

/-- A packet and a payload are held over. -/
def wideHeld (wide : Bytes) (position : ℕ) : PackState where
  pendingPayload := some wide
  pendingPacket := newlineFrame wide
  pendingPacketEvents := 1
  position := position

theorem packBatch_wide_next (hwide : newlineFrameSize wide = 50001) {m : ℕ} (hm : m < 12) :
    packBatch (fun _ => wide) sizeMax (wideStorage wide (m + 1))
      { pendingPayload := some wide, pendingPacketEvents := pendingPacketEvents,
        position := position } =
      if integratedBatchTarget < (m + 1) * 50001 + 50001 then
        .ok (wideStorage wide (m + 1), wideHeld wide (position + 1))
      else packBatch (fun _ => wide) sizeMax (wideStorage wide (m + 1 + 1))
        { pendingPayload := some wide, pendingPacketEvents := pendingPacketEvents,
          position := position + 1 } := by
  have hlength : (newlineFrame wide).length = 50001 := by rw [length_newlineFrame, hwide]
  have hroom : m + 1 + 1 < sizeMax := by
    unfold sizeMax
    omega
  have hguard : (m + 1) * 50001 < integratedBatchTarget ∧ m + 1 < sizeMax := by
    unfold integratedBatchTarget sizeMax
    omega
  have hmore : List.replicate (m + 1) (newlineFrame wide) ≠ [] := List.cons_ne_nil _ _
  have hstorage : wideStorage wide (m + 1 + 1) =
      { packets := List.replicate (m + 1) (newlineFrame wide) ++ [newlineFrame wide]
        batchBytes := (m + 1) * 50001 + 50001
        events := m + 1 + 1 } := by
    rw [wideStorage, List.replicate_succ', Nat.succ_mul]
  rw [packBatch_eq, wideStorage, if_pos hguard, nextPacket_wide hwide hroom, hstorage]
  simp only [hlength, ne_eq, hmore, not_false_eq_true, true_and]
  rfl

theorem wideHeld_pending (wide : Bytes) (position : ℕ) :
    (wideHeld wide position).pendingPacket = newlineFrame wide ∧
      (wideHeld wide position).pendingPayload = some wide :=
  ⟨rfl, rfl⟩

/-- Twelve packets fill the batch, and the thirteenth is held over. -/
theorem packBatch_wide (hwide : newlineFrameSize wide = 50001) {m n : ℕ} (h : m + 1 + n = 12) :
    packBatch (fun _ => wide) sizeMax (wideStorage wide (m + 1))
      { pendingPayload := some wide, pendingPacketEvents := pendingPacketEvents,
        position := position } =
      .ok (wideStorage wide 12, wideHeld wide (position + n + 1)) := by
  induction n generalizing m position with
  | zero =>
    obtain rfl : m = 11 := by omega
    rw [packBatch_wide_next hwide (by decide), if_pos (by decide)]
  | succ n ih =>
    have hfits : ¬ integratedBatchTarget < (m + 1) * 50001 + 50001 := by
      unfold integratedBatchTarget
      omega
    have hposition : position + 1 + n + 1 = position + (n + 1) + 1 := by omega
    rw [packBatch_wide_next hwide (by omega), if_neg hfits, ih (by omega), hposition]

/-- A first packet, and then the others. -/
theorem packedIteration_of_first (hwide : newlineFrameSize wide = 50001) {st : PackState}
    (hfirst : nextPacket (fun _ => wide) 0 sizeMax st =
      .ok (newlineFrame wide, 1, { pendingPayload := some wide, position := position })) :
    packedIteration (fun _ => wide) 0 st =
      .ok ((wideStorage wide 12).batch, wideHeld wide (position + 12)) := by
  have hlength : (newlineFrame wide).length = 50001 := by rw [length_newlineFrame, hwide]
  have hrest : packBatch (fun _ => wide) sizeMax (wideStorage wide (0 + 1))
      { pendingPayload := some wide, position := position } =
        .ok (wideStorage wide 12, wideHeld wide (position + 11 + 1)) :=
    packBatch_wide hwide rfl
  have hbatch : packBatch (fun _ => wide) sizeMax {} st =
      .ok (wideStorage wide 12, wideHeld wide (position + 12)) := by
    rw [packBatch_eq, if_pos (by decide), hfirst]
    simpa [wideStorage, hlength] using hrest
  rw [packedIteration, rateLimitedEventTarget, if_pos rfl, hbatch]

theorem packedIteration_wide (hwide : newlineFrameSize wide = 50001) :
    packedIteration (fun _ => wide) 0 {} =
      .ok ((wideStorage wide 12).batch, wideHeld wide 14) := by
  have hframe : appendFrame [] wide .newline = newlineFrame wide := rfl
  have hsmall : ¬ maximumUdpPayload < 50001 := by decide
  refine packedIteration_of_first hwide (show _ = Except.ok (newlineFrame wide, 1, _) from ?_)
  rw [nextPacket, if_neg (by simp), startPacket, fillPacket, if_pos (by decide)]
  simp only [hwide, if_neg hsmall, hframe]
  rw [if_neg (by simp), fillPacket_wide hwide (by decide)]

theorem packedIteration_wideHeld (hwide : newlineFrameSize wide = 50001) :
    packedIteration (fun _ => wide) 0 (wideHeld wide position) =
      .ok ((wideStorage wide 12).batch, wideHeld wide (position + 12)) := by
  have hheld : (wideHeld wide position).pendingPacket ≠ [] := newlineFrame_ne_nil wide
  apply packedIteration_of_first hwide
  rw [nextPacket, if_pos hheld]
  rfl

end

def wideEvent : Bytes := List.replicate 50000 space

/-- Two iterations, of which each holds a payload and a packet over. -/
theorem packedLoop_exact_wide :
    (∀ i : ℕ, newlineFrameSize ((fun _ => wideEvent) i) ≤ maximumUdpPayload) ∧
    ∃ batches st groups k, packedLoop (fun _ => wideEvent) 0 2 {} = .ok (batches, st) ∧
      st.pendingPacket = newlineFrame wideEvent ∧ st.pendingPayload = some wideEvent ∧
      batches.length = 2 ∧
      List.Forall₂ (ValidBatch (rateLimitedEventTarget 0)) batches groups ∧
      groups.flatten.flatten = segment (fun _ => wideEvent) 0 k ∧
      (batches.flatMap Batch.views).flatten =
        (segment (fun _ => wideEvent) 0 k).flatMap newlineFrame ∧
      st.pendingPacket ++ st.pendingPayload.toList.flatMap newlineFrame =
        (segment (fun _ => wideEvent) k (st.position - k)).flatMap newlineFrame := by
  have hwide : newlineFrameSize wideEvent = 50001 := by
    rw [newlineFrameSize, wideEvent, List.length_replicate, List.countP_replicate]
    rfl
  have hfit : ∀ i : ℕ, newlineFrameSize ((fun _ => wideEvent) i) ≤ maximumUdpPayload :=
    fun _ => hwide.trans_le (by decide)
  have hfirst := packedIteration_wide hwide
  have hloop : packedLoop (fun _ => wideEvent) 0 2 {} =
      .ok ([(wideStorage wideEvent 12).batch, (wideStorage wideEvent 12).batch],
        wideHeld wideEvent 26) := by
    simp only [packedLoop, hfirst, packedIteration_wideHeld hwide]
  obtain ⟨batches, st, groups, k, hok, hrest⟩ := packedLoop_exact (fun _ => wideEvent) hfit 0 2
  obtain ⟨rfl, rfl⟩ := Prod.mk.inj (Except.ok.inj (hloop.symm.trans hok))
  obtain ⟨hpacket, hpayload⟩ := wideHeld_pending wideEvent 26
  exact ⟨hfit, _, _, groups, k, hloop, hpacket, hpayload, hrest⟩

end Application
end LogGenerator
