import LogGenerator.Application.PackedLoop
import LogGenerator.Application.Transport

/-!
# The four send loops of a worker

Which loop `run_worker` enters, what one iteration of it builds, and what the
batch then carries, counted from the bytes handed to the transport alone.
-/

namespace LogGenerator
namespace Application

open Ascii Domain

def quotaForWorker (targetEps workerIndex workerCount : ℕ) : ℕ :=
  if targetEps = 0 then 0
  else targetEps / workerCount + if workerIndex < targetEps % workerCount then 1 else 0

def streamBatchEvents (quota : ℕ) : ℕ :=
  if quota = 0 then 1024 else clamp (quota / 200) 1 1024

def datagramBatchEvents (quota preferredBatchSize : ℕ) : ℕ :=
  let maximum := clamp preferredBatchSize 1 256
  if quota = 0 then maximum else clamp (quota / 1000) 1 maximum

def fileBatchEvents (quota : ℕ) (endpoint : EndpointConfig) : ℕ :=
  if 0 < endpoint.fileMaxTotalBytes ∨ 0 < endpoint.fileMaxCount ∨ 0 < endpoint.fileMaxDuration then
    1
  else if quota = 0 then 256
  else clamp (quota / 20) 1 256

def statisticsPublishEvents (quota : ℕ) : ℕ :=
  if quota = 0 then 16384 else clamp (quota / 10) 1 16384

inductive SendLoop where
  | packed
  | single
  | batched (batchLimit : ℕ)
  | stream (eventLimit batchLimit : ℕ)

def sendLoop (endpoint : EndpointConfig) (quota : ℕ) (isDatagram : Bool)
    (preferredBatchSize : ℕ) : SendLoop :=
  if isDatagram then
    match endpoint.udpPacketization with
    | .newlinePacked => .packed
    | .oneEventPerDatagram =>
      let batchLimit := datagramBatchEvents quota preferredBatchSize
      if batchLimit = 1 then .single else .batched batchLimit
  else if endpoint.protocol = .file then .stream (fileBatchEvents quota endpoint) 65536
  else .stream (streamBatchEvents quota) 1048576

/-- The loop that fills `payload_storage`, with the number of events still to come. -/
def fillDatagrams (payload : ℕ → Bytes) : ℕ → Batch → ℕ → Batch
  | 0, b, _ => b
  | remaining + 1, b, position =>
    let next := payload position
    fillDatagrams payload remaining
      { views := b.views ++ [next]
        events := b.events + 1
        datagrams := b.datagrams + 1
        bytes := b.bytes + next.length } (position + 1)

structure StreamFill where
  batch : Bytes := []
  events : ℕ := 0
  position : ℕ

/-- The loop that fills `batch`, with the number of events up to the event limit. -/
def fillStream (payload : ℕ → Bytes) (framing : StreamFraming) (batchLimit : ℕ) :
    ℕ → StreamFill → StreamFill
  | 0, f => f
  | remaining + 1, f =>
    if f.batch.length < batchLimit then
      fillStream payload framing batchLimit remaining
        { batch := appendFrame f.batch (payload f.position) framing
          events := f.events + 1
          position := f.position + 1 }
    else f

/-- What one iteration renders and hands to the transport. The single-event loop
renders after pacing, the others before. -/
def buildBatch (loop : SendLoop) (payload : ℕ → Bytes) (framing : StreamFraming) (quota : ℕ)
    (st : PackState) : Except String (Batch × PackState) :=
  match loop with
  | .packed => packedIteration payload quota st
  | .single =>
    let next := payload st.position
    .ok ({ views := [next], events := 1, datagrams := 1, bytes := next.length },
      { st with position := st.position + 1 })
  | .batched batchLimit =>
    .ok (fillDatagrams payload batchLimit {} st.position,
      { st with position := st.position + batchLimit })
  | .stream eventLimit batchLimit =>
    let f := fillStream payload framing batchLimit eventLimit { position := st.position }
    .ok ({ views := [f.batch], events := f.events, datagrams := 0, bytes := f.batch.length },
      { st with position := f.position })

def carriedEvents (isDatagram : Bool) (endpoint : EndpointConfig) (views : List Bytes) : ℕ :=
  if isDatagram then
    match endpoint.udpPacketization with
    | .newlinePacked => views.flatten.count lf
    | .oneEventPerDatagram => views.length
  else
    match endpoint.framing with
    | .newline => views.flatten.count lf
    | .octetCounting => ((octetCode.read views.flatten).getD []).length

def carriedDatagrams (isDatagram : Bool) (views : List Bytes) : ℕ :=
  if isDatagram then views.length else 0

/-- The counter increments of a batch are what its bytes carry. -/
structure Batch.Exact (isDatagram : Bool) (endpoint : EndpointConfig) (b : Batch) : Prop where
  events : b.events = carriedEvents isDatagram endpoint b.views
  datagrams : b.datagrams = carriedDatagrams isDatagram b.views
  bytes : b.bytes = b.views.flatten.length

theorem Batch.Exact.empty (isDatagram : Bool) (endpoint : EndpointConfig) :
    Batch.Exact isDatagram endpoint {} := by
  refine ⟨?_, ?_, rfl⟩
  · unfold carriedEvents
    cases isDatagram
    · cases endpoint.framing <;> rfl
    · cases endpoint.udpPacketization <;> rfl
  · cases isDatagram <;> rfl

/-- The packet held over holds as many lines as its counter says. -/
def PackState.Exact (st : PackState) : Prop := st.pendingPacket.count lf = st.pendingPacketEvents

theorem count_lf_appendFrame (packet payload : Bytes) :
    (appendFrame packet payload .newline).count lf = packet.count lf + 1 := by
  rw [appendFrame_eq, List.count_append]
  exact congrArg _ (count_lf_newlineFrame payload)

theorem fillPacket_count {payload : ℕ → Bytes} {events target : ℕ} {f f' : Filling}
    (h : fillPacket payload events target f = .ok f') (hf : f.packet.count lf = f.packetEvents) :
    f'.packet.count lf = f'.packetEvents := by
  fun_induction fillPacket payload events target f with
  | case1 f hguard next size hbig => cases h
  | case2 f hguard next size hbig hfull =>
    cases h
    exact hf
  | case3 f hguard next size hbig hfull ih =>
    exact ih h (by rw [count_lf_appendFrame, hf])
  | case4 f hguard =>
    cases h
    exact hf

theorem startPacket_count (st : PackState) :
    (startPacket st).packet.count lf = (startPacket st).packetEvents := by
  unfold startPacket
  cases st.pendingPayload with
  | none => rfl
  | some held => exact count_lf_newlineFrame held

theorem nextPacket_count {payload : ℕ → Bytes} {events target : ℕ} {st st' : PackState}
    {packet : Bytes} {n : ℕ} (h : nextPacket payload events target st = .ok (packet, n, st'))
    (hst : st.Exact) : packet.count lf = n ∧ st'.Exact := by
  unfold nextPacket at h
  split_ifs at h with hp
  · cases h
    exact ⟨hst, rfl⟩
  · cases hf : fillPacket payload events target (startPacket st) with
    | error e => simp [hf] at h
    | ok f =>
      simp only [hf] at h
      cases h
      refine ⟨fillPacket_count hf (startPacket_count st), ?_⟩
      rw [not_not] at hp
      simpa [PackState.Exact, hp] using hst

theorem packBatch_count {payload : ℕ → Bytes} {target : ℕ} {b b' : PacketStorage}
    {st st' : PackState} (h : packBatch payload target b st = .ok (b', st')) (hst : st.Exact)
    (hevents : b.events = b.packets.flatten.count lf)
    (hbytes : b.batchBytes = b.packets.flatten.length) :
    b'.events = b'.packets.flatten.count lf ∧ b'.batchBytes = b'.packets.flatten.length ∧
      st'.Exact := by
  fun_induction packBatch payload target b st with
  | case1 b st hguard e hnext => cases h
  | case2 b st hguard packet n st₁ hnext hfull =>
    cases h
    exact ⟨hevents, hbytes, (nextPacket_count hnext hst).1⟩
  | case3 b st hguard packet n st₁ hnext hfull ih =>
    obtain ⟨hcount, hst₁⟩ := nextPacket_count hnext hst
    exact ih h hst₁ (by simp [hevents, hcount]) (by simp [hbytes])
  | case4 b st hguard =>
    cases h
    exact ⟨hevents, hbytes, hst⟩

theorem fillDatagrams_spec (payload : ℕ → Bytes) (remaining : ℕ) (b : Batch) (position : ℕ)
    (hevents : b.events = b.views.length) (hdatagrams : b.datagrams = b.views.length)
    (hbytes : b.bytes = b.views.flatten.length) :
    (fillDatagrams payload remaining b position).events =
      (fillDatagrams payload remaining b position).views.length ∧
    (fillDatagrams payload remaining b position).datagrams =
      (fillDatagrams payload remaining b position).views.length ∧
    (fillDatagrams payload remaining b position).bytes =
      (fillDatagrams payload remaining b position).views.flatten.length := by
  induction remaining generalizing b position with
  | zero => exact ⟨hevents, hdatagrams, hbytes⟩
  | succ remaining ih =>
    exact ih _ _ (by simp [hevents]) (by simp [hdatagrams]) (by simp [hbytes])

/-- The stream batch holds the frames of the next payloads. -/
theorem fillStream_spec (payload : ℕ → Bytes) (framing : StreamFraming) (batchLimit k : ℕ)
    (remaining : ℕ) (f : StreamFill) (hbatch : f.batch = frameBatch framing (segment payload k f.events))
    (hposition : f.position = k + f.events) :
    (fillStream payload framing batchLimit remaining f).batch = frameBatch framing
      (segment payload k (fillStream payload framing batchLimit remaining f).events) ∧
    (fillStream payload framing batchLimit remaining f).position =
      k + (fillStream payload framing batchLimit remaining f).events := by
  induction remaining generalizing f with
  | zero => exact ⟨hbatch, hposition⟩
  | succ remaining ih =>
    unfold fillStream
    split_ifs with hroom
    · refine ih _ ?_ ?_
      · simp [segment_succ, frameBatch, hbatch, hposition]
      · simp only [hposition, Nat.add_assoc]
    · exact ⟨hbatch, hposition⟩

theorem count_lf_frameBatch (payloads : List Bytes) :
    (frameBatch .newline payloads).count lf = payloads.length := by
  rw [frameBatch_eq]
  induction payloads with
  | nil => rfl
  | cons payload payloads ih =>
    rw [List.flatMap_cons, List.count_append, ih, List.length_cons, Nat.add_comm]
    exact congrArg _ (count_lf_newlineFrame payload)

/-- Every loop counts its batches exactly, from a state whose held packet is counted exactly. -/
theorem buildBatch_exact {endpoint : EndpointConfig} {quota preferred : ℕ} {isDatagram : Bool}
    {payload : ℕ → Bytes} {st st' : PackState} {b : Batch}
    (h : buildBatch (sendLoop endpoint quota isDatagram preferred) payload endpoint.framing quota st =
      .ok (b, st')) (hst : st.Exact) : b.Exact isDatagram endpoint ∧ st'.Exact := by
  unfold sendLoop at h
  cases isDatagram with
  | true =>
    cases hp : endpoint.udpPacketization with
    | newlinePacked =>
      simp only [hp, ↓reduceIte, buildBatch, packedIteration] at h
      cases hb : packBatch payload (rateLimitedEventTarget quota) {} st with
      | error e => simp [hb] at h
      | ok r =>
        simp only [hb] at h
        cases h
        obtain ⟨hevents, hbytes, hst'⟩ := packBatch_count hb hst rfl rfl
        exact ⟨⟨by simpa [carriedEvents, hp, PacketStorage.batch] using hevents, rfl, hbytes⟩, hst'⟩
    | oneEventPerDatagram =>
      simp only [hp, ↓reduceIte] at h
      split_ifs at h with hone
      · cases h
        exact ⟨⟨by simp [carriedEvents, hp], rfl, by simp⟩, hst⟩
      · cases h
        obtain ⟨hevents, hdatagrams, hbytes⟩ := fillDatagrams_spec payload
          (datagramBatchEvents quota preferred) {} st.position rfl rfl rfl
        exact ⟨⟨by simpa [carriedEvents, hp] using hevents, hdatagrams, hbytes⟩, hst⟩
  | false =>
    have hstream : ∀ eventLimit batchLimit,
        buildBatch (.stream eventLimit batchLimit) payload endpoint.framing quota st = .ok (b, st') →
        b.Exact false endpoint ∧ st'.Exact := by
      intro eventLimit batchLimit hb
      simp only [buildBatch] at hb
      cases hb
      have hf := (fillStream_spec payload endpoint.framing batchLimit st.position eventLimit
        { position := st.position } rfl rfl).1
      refine ⟨⟨?_, rfl, by simp⟩, hst⟩
      cases hframing : endpoint.framing with
      | newline =>
        rw [hframing] at hf
        simp [carriedEvents, hframing, hf, count_lf_frameBatch]
      | octetCounting =>
        rw [hframing] at hf
        simp [carriedEvents, hframing, hf, read_frameBatch_octets]
    simp only [Bool.false_eq_true, ↓reduceIte] at h
    split_ifs at h
    · exact hstream _ _ h
    · exact hstream _ _ h

end Application
end LogGenerator
