import LogGenerator.Application.Transport

/-!
# The UDP transport on Linux

`send` hands one datagram to the kernel, `send_batch` hands chunks of them to
`sendmmsg`. What the kernel answers to each system call is data of the call; the
wire keeps what it has taken and how often it has reported a refusal.
-/

namespace LogGenerator
namespace Infrastructure

open Domain Application

/-- The value a system call returned, or `errno` after it returned -1. -/
inductive KernelAnswer where
  | returned (count : ℕ)
  | failed (error : ℕ)

/-- `ECONNREFUSED`. -/
def connectionRefused : ℕ := 111

/-- What a call of the transport reads of its surroundings: the answer to each system call,
by its index and by what it was asked to transmit. -/
structure UdpIo where
  answer : ℕ → ℕ → KernelAnswer
  strerror : ℕ → Bytes := fun _ => []

/-- The datagrams that the kernel has taken, in order, and the refusals it has reported. -/
structure Wire where
  taken : List Bytes := []
  refusals : ℕ := 0

def Wire.take (wire : Wire) (datagrams : List Bytes) : Wire :=
  { wire with taken := wire.taken ++ datagrams }

def Wire.refuse (wire : Wire) : Wire := { wire with refusals := wire.refusals + 1 }

def socketErrorMessage (io : UdpIo) (action : Bytes) (error : ℕ) : Bytes :=
  action ++ bytes " failed (" ++ decimal error ++ bytes "): " ++ io.strerror error

def maximumUdpPayload : ℕ := 65507

def oversized : Failure := .exception (bytes "UDP payload exceeds 65,507 bytes")

namespace UdpTransport

def sendDatagram (io : UdpIo) (call : ℕ) (payload : Bytes) (wire : Wire) :
    Except Failure Unit × Wire :=
  match io.answer call payload.length with
  | .failed error =>
    if error = connectionRefused then (.ok (), wire.refuse)
    else (.error (.exception (socketErrorMessage io (bytes "UDP send") error)), wire)
  | .returned sent =>
    if sent ≠ payload.length then
      (.error (.exception (bytes "UDP send was incomplete")), wire.take [payload.take sent])
    else (.ok (), wire.take [payload])

def send (io : UdpIo) (call : ℕ) (payload : Bytes) (wire : Wire) :
    Except Failure SendResult × Wire :=
  if maximumUdpPayload < payload.length then (.error oversized, wire)
  else
    match sendDatagram io call payload wire with
    | (.ok _, wire) => (.ok .sent, wire)
    | (.error failure, wire) => (.error failure, wire)

/-- `ILogTransport::send_batch`, which calls `send` for each payload. -/
def defaultSendBatch (io : UdpIo) : ℕ → List Bytes → Wire → Except Failure SendResult × Wire
  | _, [], wire => (.ok .sent, wire)
  | call, payload :: rest, wire =>
    match send io call payload wire with
    | (.ok .sent, wire) => defaultSendBatch io (call + 1) rest wire
    | (.ok limit, wire) => (.ok limit, wire)
    | (.error failure, wire) => (.error failure, wire)

def maximumDatagramBatch : ℕ := 256

/-- The loop of `send_batch`, from system call `call` on, over the payloads still to send. -/
def sendmmsgLoop (io : UdpIo) (call : ℕ) (payloads : List Bytes) (wire : Wire) :
    Except Failure SendResult × Wire :=
  if payloads = [] then (.ok .sent, wire)
  else
    let count := min maximumDatagramBatch payloads.length
    match io.answer call count with
    | .failed error =>
      if error = connectionRefused then
        sendmmsgLoop io (call + 1) (payloads.drop count) wire.refuse
      else (.error (.exception (socketErrorMessage io (bytes "UDP sendmmsg") error)), wire)
    | .returned sent =>
      if hsent : sent = 0 ∨ count < sent then
        (.error (.exception (bytes "UDP sendmmsg returned an invalid datagram count")), wire)
      else sendmmsgLoop io (call + 1) (payloads.drop sent) (wire.take (payloads.take sent))
termination_by payloads.length
decreasing_by
  · have hpos := List.length_pos_iff.mpr ‹payloads ≠ []›
    rw [List.length_drop]
    have hcount : 0 < min maximumDatagramBatch payloads.length := lt_min (by decide) hpos
    omega
  · have hpos := List.length_pos_iff.mpr ‹payloads ≠ []›
    rw [List.length_drop]
    omega

def sendBatch (io : UdpIo) (payloads : List Bytes) (wire : Wire) :
    Except Failure SendResult × Wire :=
  if payloads = [] then (.ok .sent, wire)
  else if payloads.any fun payload => maximumUdpPayload < payload.length then
    (.error oversized, wire)
  else sendmmsgLoop io 0 payloads wire

end UdpTransport

/-- Delayed refusals, each reported once: a call of `sendmmsg` is refused whole, or takes some
datagrams from the front. -/
def OneShotRefusals (io : UdpIo) : Prop :=
  ∀ call count, 0 < count → io.answer call count = .failed connectionRefused ∨
    ∃ sent, 0 < sent ∧ sent ≤ count ∧ io.answer call count = .returned sent

/-- The same for `send`, which transmits its datagram or is refused. -/
def OneShotSends (io : UdpIo) : Prop :=
  ∀ call size, io.answer call size = .failed connectionRefused ∨
    io.answer call size = .returned size

/-- A batch was sent without an exception: the payloads `taken` were transmitted, in the order
of the batch and none twice, and `refusals` refusals were reported. -/
structure Delivered (payloads taken : List Bytes) (refusals : ℕ) (before : Wire)
    (outcome : Except Failure SendResult × Wire) : Prop where
  result : outcome.1 = .ok .sent
  wire : outcome.2 = ⟨before.taken ++ taken, before.refusals + refusals⟩
  sublist : taken.Sublist payloads

/-- No more payloads are lost than refusals were reported. -/
def LosesOnlyRefused (payloads : List Bytes) (before : Wire)
    (outcome : Except Failure SendResult × Wire) : Prop :=
  ∃ taken refusals, Delivered payloads taken refusals before outcome ∧
    payloads.length - taken.length ≤ refusals

theorem Delivered.unique {payloads taken taken' : List Bytes} {refusals refusals' : ℕ}
    {before : Wire} {outcome : Except Failure SendResult × Wire}
    (h : Delivered payloads taken refusals before outcome)
    (h' : Delivered payloads taken' refusals' before outcome) :
    taken = taken' ∧ refusals = refusals' := by
  have hwire := h.wire.symm.trans h'.wire
  simp only [Wire.mk.injEq, List.append_cancel_left_eq, Nat.add_left_cancel_iff] at hwire
  exact hwire

/-- The loss is known as soon as one account of the batch is. -/
theorem Delivered.losesOnlyRefused_iff {payloads taken : List Bytes} {refusals : ℕ}
    {before : Wire} {outcome : Except Failure SendResult × Wire}
    (h : Delivered payloads taken refusals before outcome) :
    LosesOnlyRefused payloads before outcome ↔ payloads.length - taken.length ≤ refusals := by
  constructor
  · rintro ⟨taken', refusals', h', hlost⟩
    obtain ⟨rfl, rfl⟩ := h.unique h'
    exact hlost
  · exact fun hlost => ⟨taken, refusals, h, hlost⟩

theorem Delivered.nil (before : Wire) : Delivered [] [] 0 before (.ok .sent, before) :=
  ⟨rfl, by simp, .refl _⟩

/-- A call that takes some payloads from the front. -/
theorem Delivered.take {payloads taken : List Bytes} {refusals : ℕ} {before : Wire}
    {outcome : Except Failure SendResult × Wire} (sent : ℕ)
    (h : Delivered (payloads.drop sent) taken refusals (before.take (payloads.take sent)) outcome) :
    Delivered payloads (payloads.take sent ++ taken) refusals before outcome := by
  refine ⟨h.result, ?_, ?_⟩
  · rw [h.wire, Wire.take, List.append_assoc]
  · have hwhole := (List.Sublist.refl (payloads.take sent)).append h.sublist
    rwa [List.take_append_drop] at hwhole

/-- A refused call that gives up some payloads from the front. -/
theorem Delivered.refuse {payloads taken : List Bytes} {refusals : ℕ} {before : Wire}
    {outcome : Except Failure SendResult × Wire} (count : ℕ)
    (h : Delivered (payloads.drop count) taken refusals before.refuse outcome) :
    Delivered payloads taken (refusals + 1) before outcome := by
  refine ⟨h.result, ?_, h.sublist.trans (List.drop_sublist count payloads)⟩
  rw [h.wire, Wire.refuse, Nat.add_assoc, Nat.add_comm 1]

namespace UdpTransport

/-- With `remaining` payloads to go from call `call` on, a refusal is only reported to a call
that is made for the last one. -/
def RefusesOnlyLast (io : UdpIo) (call remaining : ℕ) : Prop :=
  if remaining = 0 then True
  else
    match io.answer call (min maximumDatagramBatch remaining) with
    | .failed _ => remaining = 1
    | .returned 0 => False
    | .returned (sent + 1) => RefusesOnlyLast io (call + 1) (remaining - (sent + 1))
termination_by remaining

/-- Every batch is delivered, and a refused call never loses fewer payloads than refusals. -/
theorem sendmmsgLoop_spec {io : UdpIo} (hio : OneShotRefusals io) (call : ℕ)
    (payloads : List Bytes) (before : Wire) : ∃ taken refusals,
      Delivered payloads taken refusals before (sendmmsgLoop io call payloads before) ∧
        taken.length + refusals ≤ payloads.length ∧
        (payloads.length - taken.length ≤ refusals ↔
          RefusesOnlyLast io call payloads.length) := by
  induction hlength : payloads.length using Nat.strong_induction_on generalizing call payloads before
    with
  | _ n ih =>
    rw [RefusesOnlyLast]
    by_cases hnil : payloads = []
    · subst hnil
      rw [sendmmsgLoop, if_pos rfl]
      refine ⟨[], 0, .nil before, by simp, ?_⟩
      subst hlength
      simp
    · have hpos := List.length_pos_iff.mpr hnil
      have hcount : 0 < min maximumDatagramBatch n := lt_min (by decide) (hlength ▸ hpos)
      have hle : min maximumDatagramBatch n ≤ n := min_le_right _ _
      rw [sendmmsgLoop, if_neg hnil, if_neg (by omega), hlength]
      rcases hio call _ hcount with hrefused | ⟨sent, hsent, hfits, htook⟩
      · obtain ⟨taken, refusals, hrest, hlost, -⟩ :=
          ih (n - min maximumDatagramBatch n) (by omega) (call + 1)
            (payloads.drop (min maximumDatagramBatch n)) before.refuse
            (by rw [List.length_drop, hlength])
        simp only [hrefused, ↓reduceIte]
        refine ⟨taken, refusals + 1, hrest.refuse _, by omega, ?_⟩
        have hbatch : maximumDatagramBatch = 256 := rfl
        omega
      · obtain ⟨taken, refusals, hrest, hlost, hiff⟩ :=
          ih (n - sent) (by omega) (call + 1) (payloads.drop sent) (before.take (payloads.take sent))
            (by rw [List.length_drop, hlength])
        have hvalid : ¬ (sent = 0 ∨ min maximumDatagramBatch n < sent) := by omega
        simp only [htook, dif_neg hvalid]
        refine ⟨_, refusals, hrest.take _, ?_, ?_⟩
        · rw [List.length_append, List.length_take]
          omega
        · obtain ⟨sent, rfl⟩ : ∃ k, sent = k + 1 := ⟨sent - 1, by omega⟩
          rw [List.length_append, List.length_take]
          simp only
          rw [← hiff]
          omega

theorem defaultSendBatch_spec {io : UdpIo} (hio : OneShotSends io) (call : ℕ)
    {payloads : List Bytes} (hfit : ∀ payload ∈ payloads, payload.length ≤ maximumUdpPayload)
    (before : Wire) : ∃ taken refusals,
      Delivered payloads taken refusals before (defaultSendBatch io call payloads before) ∧
        taken.length + refusals = payloads.length := by
  induction payloads generalizing call before with
  | nil => exact ⟨[], 0, .nil before, rfl⟩
  | cons payload rest ih =>
    obtain ⟨hfirst, hrest⟩ := List.forall_mem_cons.mp hfit
    rw [defaultSendBatch, send, if_neg (not_lt.mpr hfirst), sendDatagram]
    rcases hio call payload.length with hrefused | htook
    · simp only [hrefused, ↓reduceIte]
      obtain ⟨taken, refusals, hdelivered, hlost⟩ := ih (call + 1) hrest before.refuse
      refine ⟨taken, refusals + 1, Delivered.refuse 1 hdelivered, ?_⟩
      rw [List.length_cons]
      omega
    · simp only [htook, ne_eq, not_true_eq_false, ↓reduceIte]
      obtain ⟨taken, refusals, hdelivered, hlost⟩ := ih (call + 1) hrest (before.take [payload])
      have hwhole : Delivered (payload :: rest) ([payload] ++ taken) refusals before _ :=
        Delivered.take 1 hdelivered
      refine ⟨[payload] ++ taken, refusals, hwhole, ?_⟩
      rw [List.length_append, List.length_singleton, List.length_cons]
      omega

/-- `send_batch` delivers in order and none twice; it loses more than was refused exactly when
a refusal comes while two or more payloads are still to go. The default loop never does. -/
theorem sendBatch_losesOnlyRefused {io : UdpIo} (hio : OneShotRefusals io) {payloads : List Bytes}
    (hfit : ∀ payload ∈ payloads, payload.length ≤ maximumUdpPayload) (before : Wire) :
    (∃ taken refusals, Delivered payloads taken refusals before (sendBatch io payloads before)) ∧
      (LosesOnlyRefused payloads before (sendBatch io payloads before) ↔
        RefusesOnlyLast io 0 payloads.length) ∧
      ∀ each, OneShotSends each →
        LosesOnlyRefused payloads before (defaultSendBatch each 0 payloads before) := by
  have hloop : sendBatch io payloads before = sendmmsgLoop io 0 payloads before := by
    rw [sendBatch]
    split_ifs with hnil hover
    · rw [hnil, sendmmsgLoop, if_pos rfl]
    · obtain ⟨payload, hmem, hlong⟩ := List.any_eq_true.mp hover
      exact absurd (hfit payload hmem) (not_le.mpr (of_decide_eq_true hlong))
    · rfl
  obtain ⟨taken, refusals, hdelivered, -, hlost⟩ := sendmmsgLoop_spec hio 0 payloads before
  rw [hloop]
  refine ⟨⟨taken, refusals, hdelivered⟩, ?_, ?_⟩
  · rw [hdelivered.losesOnlyRefused_iff, hlost]
  · intro each heach
    obtain ⟨taken, refusals, hdelivered, hcount⟩ := defaultSendBatch_spec heach 0 hfit before
    exact ⟨taken, refusals, hdelivered, by omega⟩

/-- The call with index `refused` is refused, every other one takes all it is given. -/
def refusedAt (refused : ℕ) : UdpIo where
  answer call count := if call = refused then .failed connectionRefused else .returned count

theorem oneShotRefusals_refusedAt (refused : ℕ) : OneShotRefusals (refusedAt refused) := by
  intro call count hcount
  simp only [refusedAt]
  split_ifs
  · exact .inl rfl
  · exact .inr ⟨count, hcount, le_rfl, rfl⟩

/-- The first call takes two datagrams, and every other one is refused. -/
def partlyTaken : UdpIo where
  answer call count := if call = 0 then .returned (min 2 count) else .failed connectionRefused

theorem oneShotRefusals_partlyTaken : OneShotRefusals partlyTaken := by
  intro call count hcount
  simp only [partlyTaken]
  split_ifs
  · exact .inr ⟨min 2 count, lt_min (by decide) hcount, min_le_right _ _, rfl⟩
  · exact .inl rfl

/-- Three payloads, of which the last one is refused. -/
theorem sendBatch_losesOnlyRefused_last :
    sendBatch partlyTaken [bytes "a", bytes "b", bytes "c"] {} =
        (.ok .sent, ⟨[bytes "a", bytes "b"], 1⟩) ∧
      LosesOnlyRefused [bytes "a", bytes "b", bytes "c"] {}
        (sendBatch partlyTaken [bytes "a", bytes "b", bytes "c"] {}) := by
  have hfit : ∀ payload ∈ [bytes "a", bytes "b", bytes "c"],
      payload.length ≤ maximumUdpPayload := by decide
  constructor
  · rw [sendBatch, if_neg (by decide), if_neg (by decide), sendmmsgLoop, if_neg (by decide)]
    simp [partlyTaken, maximumDatagramBatch, sendmmsgLoop, Wire.refuse, Wire.take]
  · apply (sendBatch_losesOnlyRefused oneShotRefusals_partlyTaken hfit {}).2.1.mpr
    rw [RefusesOnlyLast]
    simp [partlyTaken, maximumDatagramBatch, RefusesOnlyLast]

/-- One refusal, two payloads lost. -/
theorem sendBatch_losesUnrefused :
    (∀ payload ∈ [bytes "a", bytes "b"], payload.length ≤ maximumUdpPayload) ∧
      OneShotRefusals (refusedAt 0) ∧
      sendBatch (refusedAt 0) [bytes "a", bytes "b"] {} = (.ok .sent, ⟨[], 1⟩) ∧
      ¬ LosesOnlyRefused [bytes "a", bytes "b"] {}
        (sendBatch (refusedAt 0) [bytes "a", bytes "b"] {}) := by
  have hrun : sendBatch (refusedAt 0) [bytes "a", bytes "b"] {} = (.ok .sent, ⟨[], 1⟩) := by
    rw [sendBatch, if_neg (by decide), if_neg (by decide), sendmmsgLoop, if_neg (by decide)]
    simp [refusedAt, maximumDatagramBatch, sendmmsgLoop, Wire.refuse]
  have hdelivered : Delivered [bytes "a", bytes "b"] [] 1 {}
      (sendBatch (refusedAt 0) [bytes "a", bytes "b"] {}) :=
    ⟨by rw [hrun], by rw [hrun]; rfl, List.nil_sublist _⟩
  refine ⟨by decide, oneShotRefusals_refusedAt 0, hrun, ?_⟩
  rw [hdelivered.losesOnlyRefused_iff]
  decide

end UdpTransport
end Infrastructure
end LogGenerator
