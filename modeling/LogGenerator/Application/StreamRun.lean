import LogGenerator.Application.Totals
import LogGenerator.Infrastructure.StreamTransports

/-!
# What arrives over a stream

Whatever the threads, the transports and the front end do: each connection carries the
frames of the first payloads of one worker, in order and without a gap, and at its end
perhaps a part of the next ones if a write failed.
-/

namespace LogGenerator
namespace Application

open Domain Infrastructure

variable {Handle World Event : Type}

/-- A transport that writes to connections of its own. -/
structure StreamPort (T : Transport Handle World Event) where
  opened : World → Handle → Prop
  wire : World → Handle → Bytes
  isDatagram : T.isDatagram = false
  connect_ok : ∀ {endpoint world event handle world'},
    T.connect endpoint world event = (.ok handle, world') →
      ¬ opened world handle ∧ opened world' handle ∧ wire world' handle = []
  connect_keeps : ∀ {endpoint world event result world' handle},
    T.connect endpoint world event = (result, world') → opened world handle →
      opened world' handle ∧ wire world' handle = wire world handle
  send_writes : ∀ {handle world payload event result handle' world'}, opened world handle →
    T.send handle world payload event = (result, handle', world') →
      handle' = handle ∧ opened world' handle ∧ ∃ written, written <+: payload ∧
        wire world' handle = wire world handle ++ written ∧
        ∀ r, result = .ok r → r = .sent ∧ written = payload
  send_keeps : ∀ {handle world payload event result handle' world' other}, opened world handle →
    T.send handle world payload event = (result, handle', world') → other ≠ handle →
      opened world other → opened world' other ∧ wire world' other = wire world other

/-- What a receiver makes of the bytes of a connection. -/
def readStream : StreamFraming → Bytes → Option (List Bytes)
  | .newline => lineCode.read
  | .octetCounting => octetCode.read

/-- A payload as its frame shows it. -/
def shown : StreamFraming → Bytes → Bytes
  | .newline => escapeBreaks
  | .octetCounting => id

theorem readStream_frameBatch (framing : StreamFraming) (payloads : List Bytes) :
    readStream framing (frameBatch framing payloads) = some (payloads.map (shown framing)) := by
  cases framing with
  | newline => exact read_frameBatch_newline payloads
  | octetCounting => simpa [readStream, shown] using read_frameBatch_octets payloads

theorem frameBatch_append (framing : StreamFraming) (xs ys : List Bytes) :
    frameBatch framing (xs ++ ys) = frameBatch framing xs ++ frameBatch framing ys := by
  simp only [frameBatch_eq, List.flatMap_append]

namespace Setup

variable {S : Setup Handle World Event} {port : StreamPort S.transport} {i : Fin S.workerCount}
  {sh sh' : Shared World} {w w' : Worker Handle} {event : Event} {fault : Option Failure}
  {s t : S.State} {world world' : World} {n : ℕ}

variable (S) in
/-- The frames of `n` payloads of worker `i`, from the `k`-th on. -/
def frames (i : Fin S.workerCount) (k n : ℕ) : Bytes :=
  frameBatch S.endpoint.framing (segment (S.payload i) k n)

theorem frames_add (i : Fin S.workerCount) (k m n : ℕ) :
    S.frames i k (m + n) = S.frames i k m ++ S.frames i (k + m) n := by
  unfold frames
  rw [segment_add, frameBatch_append]

/-- The connection has got the frames of the first `n` payloads, and then `rest`. -/
structure Delivered (port : StreamPort S.transport) (i : Fin S.workerCount) (world : World)
    (handle : Handle) (n : ℕ) (rest : Bytes) : Prop where
  opened : port.opened world handle
  wire : port.wire world handle = S.frames i 0 n ++ rest

/-- Nothing but whole frames has been written. -/
def Clean (port : StreamPort S.transport) (i : Fin S.workerCount) (world : World)
    (handle : Option Handle) (n : ℕ) : Prop :=
  ∃ h, handle = some h ∧ Delivered port i world h n []

/-- There is no connection, or a write may have been cut off. -/
def Cut (port : StreamPort S.transport) (i : Fin S.workerCount) (world : World)
    (handle : Option Handle) (n : ℕ) : Prop :=
  (handle = none ∧ n = 0) ∨
    ∃ h m rest, handle = some h ∧ rest <+: S.frames i n m ∧ Delivered port i world h n rest

/-- The batch holds the frames of the next payloads. -/
structure NextBatch (i : Fin S.workerCount) (b : Batch) (n : ℕ) : Prop where
  views : b.views = [S.frames i n b.events]
  bytes : b.bytes = (S.frames i n b.events).length

/-- The worker, of whose payloads the first `n` are sent, by its place. -/
def Sends (port : StreamPort S.transport) (i : Fin S.workerCount) (world : World)
    (w : Worker Handle) (n : ℕ) : Prop :=
  match w.pc with
  | .unstarted | .connect => n = 0 ∧ w.handle = none ∧ w.pack.position = 0
  | .announce | .markStarted | .openGate | .awaitGate | .awaitState | .checkGate
  | .enterLoop | .loopTest | .render
  | .flushMessages .loop | .flushDatagrams .loop | .flushBytes .loop =>
    Clean port i world w.handle n ∧ w.pack.position = n
  | .pace | .paceTest | .send =>
    Clean port i world w.handle n ∧ NextBatch i w.batch n ∧ w.pack.position = n + w.batch.events
  | .flushMessages .leave | .flushDatagrams .leave | .flushBytes .leave | .done .returned =>
    Clean port i world w.handle n
  | .flushMessages (.fail _) | .flushDatagrams (.fail _) | .flushBytes (.fail _)
  | .countError _ | .setError _ | .storeFailed | .errorStop | .done .exception =>
    Cut port i world w.handle n
  | _ => False

theorem Clean.cut {handle : Option Handle} (h : Clean port i world handle n) :
    Cut port i world handle n := by
  obtain ⟨g, hhandle, hdelivered⟩ := h
  exact .inr ⟨g, 0, [], hhandle, List.nil_prefix, hdelivered⟩

theorem Cut.opened {handle : Handle} (h : Cut port i world (some handle) n) :
    port.opened world handle := by
  rcases h with ⟨hnone, -⟩ | ⟨g, m, rest, hg, -, hdelivered⟩
  · cases hnone
  · cases hg
    exact hdelivered.opened

/-- Wherever the worker is, what it has sent ends with a cut at worst. -/
theorem Sends.cut (h : Sends port i world w n) : Cut port i world w.handle n := by
  unfold Sends at h
  split at h
  · exact .inl ⟨h.2.1, h.1⟩
  · exact .inl ⟨h.2.1, h.1⟩
  all_goals first
    | exact h.elim
    | exact h
    | exact h.cut
    | exact h.1.cut

/-- The connections of the other workers, of which the world has changed nothing. -/
theorem Sends.keep (h : Sends port i world w n)
    (hkeep : ∀ g, w.handle = some g → port.opened world g →
      port.opened world' g ∧ port.wire world' g = port.wire world g) :
    Sends port i world' w n := by
  have hdelivered {g : Handle} {rest : Bytes} (hg : w.handle = some g)
      (hd : Delivered port i world g n rest) : Delivered port i world' g n rest := by
    obtain ⟨hopened, hwire⟩ := hkeep g hg hd.opened
    exact ⟨hopened, hwire.trans hd.wire⟩
  have hclean (hc : Clean port i world w.handle n) : Clean port i world' w.handle n := by
    obtain ⟨g, hg, hd⟩ := hc
    exact ⟨g, hg, hdelivered hg hd⟩
  have hcut (hc : Cut port i world w.handle n) : Cut port i world' w.handle n := by
    rcases hc with hnone | ⟨g, m, rest, hg, hrest, hd⟩
    · exact .inl hnone
    · exact .inr ⟨g, m, rest, hg, hrest, hdelivered hg hd⟩
  unfold Sends at h ⊢
  split at h
  all_goals first
    | exact h.elim
    | exact h
    | exact hclean h
    | exact hcut h
    | exact ⟨hclean h.1, h.2⟩

/-- What a step of a worker comes to: its own part of the books, and nobody else's connection. -/
structure Sending (port : StreamPort S.transport) (i : Fin S.workerCount) (sh : Shared World)
    (w : Worker Handle) (n : ℕ) (sh' : Shared World) (w' : Worker Handle) (n' : ℕ) : Prop where
  sends : Sends port i sh'.world w' n'
  messages : (S.carried sh'.accepted).1 + n = (S.carried sh.accepted).1 + n'
  bytes : (S.carried sh'.accepted).2.2 + (S.frames i 0 n).length =
    (S.carried sh.accepted).2.2 + (S.frames i 0 n').length
  keeps : ∀ g, port.opened sh.world g → w.handle ≠ some g →
    port.opened sh'.world g ∧ port.wire sh'.world g = port.wire sh.world g
  handle : ∀ g, w'.handle = some g → w.handle = some g ∨ ¬ port.opened sh.world g

/-- A step that sends nothing. -/
theorem Sending.of_same (hsends : Sends port i sh'.world w' n) (hworld : sh'.world = sh.world)
    (hhandle : w'.handle = w.handle) (haccepted : sh'.accepted = sh.accepted) :
    Sending port i sh w n sh' w' n := by
  refine ⟨hsends, by rw [haccepted], by rw [haccepted], ?_, ?_⟩
  · intro g hg _
    rw [hworld]
    exact ⟨hg, rfl⟩
  · intro g hg
    exact .inl (hhandle ▸ hg)

theorem loop_stream (port : StreamPort S.transport) (i : Fin S.workerCount) :
    ∃ eventLimit batchLimit, S.loop i = .stream eventLimit batchLimit := by
  unfold loop sendLoop
  rw [port.isDatagram, if_neg (by decide)]
  split_ifs
  · exact ⟨_, _, rfl⟩
  · exact ⟨_, _, rfl⟩

theorem pacesFirst_stream (port : StreamPort S.transport) (i : Fin S.workerCount) :
    S.pacesFirst i = false := by
  obtain ⟨eventLimit, batchLimit, hloop⟩ := loop_stream port i
  rw [pacesFirst, hloop]

/-- An iteration frames the next payloads. -/
theorem buildBatch_stream (port : StreamPort S.transport) {st st' : PackState} {b : Batch}
    (h : buildBatch (S.loop i) (S.payload i) S.endpoint.framing (S.quota i) st = .ok (b, st'))
    (hst : st.position = n) : NextBatch i b n ∧ st'.position = n + b.events := by
  obtain ⟨eventLimit, batchLimit, hloop⟩ := loop_stream port i
  rw [hloop] at h
  cases h
  obtain ⟨hbatch, hposition⟩ := fillStream_spec (S.payload i) S.endpoint.framing batchLimit
    st.position eventLimit { position := st.position } rfl rfl
  subst hst
  exact ⟨⟨congrArg (fun view => [view]) hbatch, congrArg List.length hbatch⟩, hposition⟩

theorem transmit_stream (port : StreamPort S.transport) (handle : Handle) (world : World)
    (view : Bytes) (event : Event) :
    S.transmit i handle world [view] event = S.transport.send handle world view event := by
  obtain ⟨eventLimit, batchLimit, hloop⟩ := loop_stream port i
  rw [transmit, hloop]
  rfl

theorem frames_next (i : Fin S.workerCount) (n k : ℕ) :
    S.frames i 0 (n + k) = S.frames i 0 n ++ S.frames i n k := by
  rw [frames_add, Nat.zero_add]

/-- The call that writes the batch. -/
theorem send_sends {handle : Handle} (hdelivered : Delivered port i sh.world handle n [])
    (hbatch : NextBatch i w.batch n) {result : Except Failure SendResult} {handle' : Handle}
    (hsend : S.transmit i handle sh.world w.batch.views event = (result, handle', world')) :
    handle' = handle ∧
    (∀ r, result = .ok r → r = .sent ∧
      Delivered port i world' handle (n + w.batch.events) []) ∧
    (∃ m rest, rest <+: S.frames i n m ∧ Delivered port i world' handle n rest) ∧
    ∀ g, port.opened sh.world g → g ≠ handle →
      port.opened world' g ∧ port.wire world' g = port.wire sh.world g := by
  rw [hbatch.views, transmit_stream port] at hsend
  obtain ⟨hsame, hopened, written, hbegins, hwire, hok⟩ :=
    port.send_writes hdelivered.opened hsend
  have hbefore : port.wire sh.world handle = S.frames i 0 n := by
    rw [hdelivered.wire, List.append_nil]
  refine ⟨hsame, ?_, ?_, ?_⟩
  · intro r hr
    obtain ⟨hsent, hall⟩ := hok r hr
    refine ⟨hsent, hopened, ?_⟩
    rw [hwire, hall, hbefore, frames_next, List.append_nil]
  · exact ⟨w.batch.events, written, hbegins, hopened, by rw [hwire, hbefore]⟩
  · intro g hg hne
    exact port.send_keeps hdelivered.opened hsend hne hg

theorem Leads.sends {pc : WorkerPc} (h : S.Leads i sh told fault w.pc pc)
    (hw : Sends port i world w n) : Sends port i world { w with pc := pc } n := by
  unfold Sends at hw ⊢
  generalize w.pc = before at h hw
  cases h with
  | missGate | turnBack => exact hw.1
  | paceFirst _ hpaces | renderPaced _ hpaces =>
    rw [pacesFirst_stream port] at hpaces
    cases hpaces
  | leave hpc =>
    rcases hpc with rfl | rfl
    · exact hw.1
    · exact hw.1
  | throw hpc =>
    rcases hpc with rfl | rfl | rfl
    · exact .inl ⟨hw.2.1, hw.1⟩
    · exact hw.1.cut
    · exact hw.1.cut
  | openGate | readState | stopWaiting | wait | checkGate | passGate | enterLoop | render | pace
  | send | store | skipStore => exact hw

theorem Publishes.sends {pc : WorkerPc} (h : Publishes sh w.pc sh' pc)
    (hw : Sends port i world w n) : Sends port i world { w with pc := pc } n := by
  unfold Sends at hw ⊢
  generalize w.pc = before at h hw
  cases h with
  | setStatus | completionStore | completionStop => exact hw.elim
  | countError | setError | storeFailed | errorStop => exact hw

theorem workerStep_sends (h : S.workerStep i sh w event fault = some (sh', w'))
    (hcounted : S.Counted w) (hw : Sends port i sh.world w n) :
    ∃ n', Sending port i sh w n sh' w' n' := by
  have hwhole := hw
  unfold Sends at hw
  cases moves_of_workerStep h with
  | lead hleads => exact ⟨n, .of_same (hleads.sends hwhole) rfl rfl rfl⟩
  | publish hpublishes =>
    obtain ⟨_, haccepted, hworld⟩ := hpublishes.frame
    refine ⟨n, .of_same ?_ hworld rfl haccepted⟩
    rw [hworld]
    exact hpublishes.sends hwhole
  | connect hpc hconnect =>
    simp only [hpc] at hw
    obtain ⟨rfl, _, hposition⟩ := hw
    obtain ⟨hfresh, hopened, hwire⟩ := port.connect_ok hconnect
    refine ⟨0, ⟨⟨_, rfl, hopened, hwire⟩, hposition⟩, rfl, rfl, ?_, ?_⟩
    · intro g hg _
      exact port.connect_keeps hconnect hg
    · intro g hg
      cases hg
      exact .inr hfresh
  | refuse hpc hconnect =>
    simp only [hpc] at hw
    obtain ⟨rfl, hnone, _⟩ := hw
    refine ⟨0, .inl ⟨hnone, rfl⟩, rfl, rfl, ?_, fun g hg => .inl hg⟩
    intro g hg _
    exact port.connect_keeps hconnect hg
  | announce hpc hnext =>
    simp only [hpc] at hw
    refine ⟨n, .of_same ?_ rfl rfl rfl⟩
    rcases hnext with ⟨rfl, _⟩ | ⟨rfl, _⟩
    · exact hw
    · exact hw
  | start hpc =>
    simp only [hpc] at hw
    exact ⟨n, .of_same hw rfl rfl rfl⟩
  | render hpc hbuild hnext =>
    simp only [hpc] at hw
    obtain ⟨hbatch, hposition⟩ := buildBatch_stream port hbuild hw.2
    refine ⟨n, .of_same ?_ rfl rfl rfl⟩
    rcases hnext with ⟨rfl, _⟩ | ⟨rfl, _⟩
    · exact ⟨hw.1, hbatch, hposition⟩
    · exact ⟨hw.1, hbatch, hposition⟩
  | reject hpc =>
    simp only [hpc] at hw
    exact ⟨n, .of_same hw.1.cut rfl rfl rfl⟩
  | @flushMessages next hpc | @flushDatagrams next hpc | @flushBytes next hpc =>
    simp only [hpc] at hw
    refine ⟨n, .of_same ?_ rfl rfl rfl⟩
    cases next
    all_goals exact hw
  | sent hpc hhandle hsend hnext =>
    simp only [hpc] at hw
    obtain ⟨⟨handle, hown, hdelivered⟩, hbatch, hposition⟩ := hw
    obtain rfl := Option.some.inj (hown.symm.trans hhandle)
    obtain ⟨rfl, hok, _, hkeeps⟩ := send_sends hdelivered hbatch hsend
    obtain ⟨_, hdelivered'⟩ := hok _ rfl
    have hcarried : S.carried (sh.accepted ++ [w.batch.views]) =
        S.carried sh.accepted + (w.batch.events, w.batch.datagrams, w.batch.bytes) :=
      carried_append _ _ _ _ hcounted.batch
    refine ⟨n + w.batch.events, ?_, ?_, ?_, ?_, fun g hg => .inl (hhandle.trans hg)⟩
    · rcases hnext with rfl | ⟨rfl, _⟩
      · exact ⟨⟨_, rfl, hdelivered'⟩, hposition⟩
      · exact ⟨⟨_, rfl, hdelivered'⟩, hposition⟩
    · rw [hcarried, Prod.fst_add]
      omega
    · rw [hcarried, Prod.snd_add, Prod.snd_add, frames_next, List.length_append, hbatch.bytes]
      dsimp only
      omega
    · intro g hg hne
      exact hkeeps g hg fun heq => hne (heq ▸ hhandle)
  | complete hpc hhandle hsend hresult =>
    simp only [hpc] at hw
    obtain ⟨⟨handle, hown, hdelivered⟩, hbatch, _⟩ := hw
    obtain rfl := Option.some.inj (hown.symm.trans hhandle)
    obtain ⟨_, hok, _⟩ := send_sends hdelivered hbatch hsend
    exact absurd (hok _ rfl).1 hresult
  | fail hpc hhandle hsend =>
    simp only [hpc] at hw
    obtain ⟨⟨handle, hown, hdelivered⟩, hbatch, _⟩ := hw
    obtain rfl := Option.some.inj (hown.symm.trans hhandle)
    obtain ⟨rfl, _, ⟨m, rest, hrest, hcut⟩, hkeeps⟩ := send_sends hdelivered hbatch hsend
    refine ⟨n, .inr ⟨_, m, rest, rfl, hrest, hcut⟩, rfl, rfl, ?_,
      fun g hg => .inl (hhandle.trans hg)⟩
    intro g hg hne
    exact hkeeps g hg fun heq => hne (heq ▸ hhandle)

/-- Of the payloads of worker `i` the first `n i` are sent, each on the worker's own connection. -/
structure Delivering (port : StreamPort S.transport) (s : S.State) (n : Fin S.workerCount → ℕ) :
    Prop where
  sends : ∀ i, Sends port i s.shared.world (s.workers i) (n i)
  distinct : ∀ i j g, (s.workers i).handle = some g → (s.workers j).handle = some g → i = j
  messages : (S.carried s.shared.accepted).1 = ∑ i, n i
  bytes : (S.carried s.shared.accepted).2.2 = ∑ i, (S.frames i 0 (n i)).length

theorem delivering_initial (port : StreamPort S.transport) :
    Delivering port S.initial fun _ => 0 where
  sends _ := ⟨rfl, rfl, rfl⟩
  distinct _ _ _ h := by cases h
  messages := by
    simp only [Finset.sum_const_zero]
    rfl
  bytes := by
    have hframes : ∀ i, (S.frames i 0 0).length = 0 := fun _ => rfl
    simp only [hframes, Finset.sum_const_zero]
    rfl

theorem Sends.congr (h : Sends port i world w n)
    (hpc : w'.pc = w.pc ∨ w.pc = .unstarted ∧ w'.pc = .connect) (hhandle : w'.handle = w.handle)
    (hpack : w'.pack = w.pack) (hbatch : w'.batch = w.batch) : Sends port i world w' n := by
  rcases hpc with hsame | ⟨hunstarted, hconnect⟩
  · unfold Sends
    rw [hsame, hhandle, hpack, hbatch]
    exact h
  · simp only [Sends, hunstarted] at h
    simp only [Sends, hconnect, hhandle, hpack]
    exact h

theorem supervisorStep_connections (h : S.supervisorStep s fault = some t) :
    t.shared.world = s.shared.world ∧ ∀ i, (t.workers i).handle = (s.workers i).handle := by
  cases moves_of_supervisorStep h with
  | lead => exact ⟨rfl, fun _ => rfl⟩
  | store hstores =>
    generalize s.supervisor = before at hstores
    cases hstores
    all_goals exact ⟨rfl, fun _ => rfl⟩
  | spawn | tell =>
    refine ⟨rfl, ?_⟩
    dsimp only
    exact updateWorker_proj Worker.handle (by intro w; rfl)

theorem Delivering.supervisorStep {n : Fin S.workerCount → ℕ} (hs : Delivering port s n)
    (hconserved : S.Conserved s) (h : S.supervisorStep s fault = some t) :
    Delivering port t n := by
  have hframe := supervisorStep_frame h
  obtain ⟨hworld, hhandle⟩ := supervisorStep_connections h
  refine ⟨?_, ?_, ?_, ?_⟩
  · intro i
    rw [hworld]
    apply (hs.sends i).congr _ (hhandle i) (hframe.pack i) (hframe.batch i)
    rcases hframe.pc i with hsame | ⟨hunspawned, hconnect⟩
    · exact .inl hsame
    · exact .inr ⟨hconserved.unspawned i hunspawned, hconnect⟩
  · intro i j g hi hj
    exact hs.distinct i j g ((hhandle i).symm.trans hi) ((hhandle j).symm.trans hj)
  · rw [hframe.accepted]
    exact hs.messages
  · rw [hframe.accepted]
    exact hs.bytes

theorem Delivering.worker {n : Fin S.workerCount → ℕ} (hs : Delivering port s n)
    {m : ℕ} (h : Sending port i s.shared (s.workers i) (n i) sh' w' m) :
    Delivering port ({ s with shared := sh', workers := Function.update s.workers i w' } : S.State)
      (Function.update n i m) := by
  refine ⟨?_, ?_, ?_, ?_⟩
  · intro j
    by_cases hij : j = i
    · subst hij
      simpa using h.sends
    · simp only [Function.update_of_ne hij]
      apply (hs.sends j).keep
      intro g hg hopened
      exact h.keeps g hopened fun hi => hij (hs.distinct j i g hg hi)
  · -- a new connection is nobody else's
    have hnew : ∀ j g, j ≠ i → (s.workers j).handle = some g → w'.handle ≠ some g := by
      intro j g hij hj hi
      rcases h.handle g hi with hold | hfresh
      · exact hij (hs.distinct j i g hj hold)
      · have hcut := (hs.sends j).cut
        rw [hj] at hcut
        exact hfresh hcut.opened
    intro j k g hj hk
    by_cases hji : j = i
    · by_cases hki : k = i
      · rw [hji, hki]
      · subst hji
        simp only [Function.update_self, Function.update_of_ne hki] at hj hk
        exact absurd hj (hnew k g hki hk)
    · by_cases hki : k = i
      · subst hki
        simp only [Function.update_self, Function.update_of_ne hji] at hj hk
        exact absurd hk (hnew j g hji hj)
      · simp only [Function.update_of_ne hji, Function.update_of_ne hki] at hj hk
        exact hs.distinct j k g hj hk
  · have hsent := sum_update_add n id i m
    have hbefore := hs.messages
    have hstep := h.messages
    dsimp only [id] at hsent ⊢
    omega
  · have hsent : ∑ j, (S.frames j 0 (Function.update n i m j)).length + (S.frames i 0 (n i)).length =
        ∑ j, (S.frames j 0 (n j)).length + (S.frames i 0 m).length := by
      simp only [Function.apply_update fun j k => (S.frames j 0 k).length]
      exact sum_update_add (fun j => (S.frames j 0 (n j)).length) id i _
    have hbefore := hs.bytes
    have hstep := h.bytes
    dsimp only
    omega

theorem Delivering.step {n : Fin S.workerCount → ℕ} {a : Action Event S.workerCount}
    (hs : Delivering port s n) (hconserved : S.Conserved s) (h : S.machine.step s a = some t) :
    ∃ n', Delivering port t n' := by
  cases a with
  | requestStop =>
    cases h
    refine ⟨n, ?_⟩
    obtain ⟨hsends, hdistinct, hmessages, hbytes⟩ := hs
    cases hclient : s.shared.client
    all_goals refine ⟨?_, hdistinct, ?_, ?_⟩
    all_goals simp only [clientStep, hclient]
    all_goals first
      | exact hsends
      | exact hmessages
      | exact hbytes
  | supervisor fault => exact ⟨n, hs.supervisorStep hconserved h⟩
  | worker i event fault =>
    obtain ⟨⟨sh', w'⟩, hr, rfl⟩ := Option.map_eq_some_iff.mp h
    obtain ⟨m, hsending⟩ := workerStep_sends hr (hconserved.counted i) (hs.sends i)
    exact ⟨_, hs.worker hsending⟩

theorem delivering_of_reachable (port : StreamPort S.transport) (h : S.machine.Reachable s) :
    ∃ n, Delivering port s n := by
  apply h.invariant_with (J := S.Conserved) ⟨_, delivering_initial port⟩ conserved_initial
  · exact fun _ _ _ hs _ hstep => hs.step hstep
  · rintro s a t hconserved ⟨n, hs⟩ - hstep
    exact hs.step hconserved hstep

end Setup

/-- An exception is on its way out of the worker, or has left it. -/
def WorkerPc.Failing : WorkerPc → Prop
  | .flushMessages (.fail _) | .flushDatagrams (.fail _) | .flushBytes (.fail _)
  | .countError _ | .setError _ | .storeFailed | .errorStop | .done .exception => True
  | _ => False

namespace Setup

variable {S : Setup Handle World Event} {port : StreamPort S.transport} {i : Fin S.workerCount}
  {w : Worker Handle} {s : S.State} {world : World} {n : ℕ}

theorem Sends.clean {handle : Handle} (h : Sends port i world w n) (hpc : ¬ w.pc.Failing)
    (hhandle : w.handle = some handle) : Delivered port i world handle n [] := by
  have hclean : Clean port i world w.handle n := by
    unfold Sends at h
    split at h
    · rw [h.2.1] at hhandle
      cases hhandle
    · rw [h.2.1] at hhandle
      cases hhandle
    all_goals first
      | exact h
      | exact h.1
      | exact h.elim
      | exact absurd (by simp [WorkerPc.Failing, *]) hpc
  obtain ⟨g, hg, hdelivered⟩ := hclean
  rw [hhandle] at hg
  cases hg
  exact hdelivered

/-- What has arrived from worker `i`, of whose payloads `n` are counted as sent. -/
structure Arrived (S : Setup Handle World Event) (i : Fin S.workerCount) (pc : WorkerPc) (n : ℕ)
    (received : Bytes) : Prop where
  starts_frames : ∃ m rest, rest <+: S.frames i n m ∧ received = S.frames i 0 n ++ rest
  whole : ¬ pc.Failing → readStream S.endpoint.framing received =
    some ((segment (S.payload i) 0 n).map (shown S.endpoint.framing))

theorem Sends.arrived {handle : Handle} (h : Sends port i world w n)
    (hhandle : w.handle = some handle) : Arrived S i w.pc n (port.wire world handle) := by
  constructor
  · have hcut := h.cut
    rw [hhandle] at hcut
    rcases hcut with ⟨hnone, -⟩ | ⟨g, m, rest, hg, hrest, hdelivered⟩
    · cases hnone
    · cases hg
      exact ⟨m, rest, hrest, hdelivered.wire⟩
  · intro hpc
    rw [(h.clean hpc hhandle).wire, List.append_nil]
    exact readStream_frameBatch _ _

end Setup

theorem sendOver_eq {write : StreamIo → ℕ → Bytes → Except Failure Unit × Bytes} {socket : ℕ}
    {net net' : Connections} {index : ℕ} {payload : Bytes} {io : StreamIo}
    {result : Except Failure SendResult} {socket' : ℕ}
    (h : sendOver write socket net index payload io = (result, socket', net')) :
    socket' = socket ∧ net' = net.add socket (write io index payload).2 ∧
      ∀ r, result = .ok r → r = .sent ∧ (write io index payload).1 = .ok () := by
  unfold sendOver at h
  split at h
  · rename_i written heq
    cases h
    rw [heq]
    exact ⟨rfl, rfl, fun r hr => ⟨(Except.ok.inj hr).symm, rfl⟩⟩
  · rename_i failure written heq
    cases h
    rw [heq]
    exact ⟨rfl, rfl, fun r hr => by cases hr⟩

/-- A loop that writes beginnings of its payloads gives each connection its own bytes. -/
def streamPort (write : StreamIo → ℕ → Bytes → Except Failure Unit × Bytes)
    (hwrite : ∀ io index payload, (write io index payload).2 <+: payload ∧
      ((write io index payload).1 = .ok () → (write io index payload).2 = payload)) :
    StreamPort (streamTransport write) where
  opened net socket := socket < net.wires.length
  wire net socket := net.wires.getD socket []
  isDatagram := rfl
  connect_ok := by
    intro endpoint net io socket net' h
    simp only [streamTransport] at h
    split at h
    · cases h
    · cases h
      simp
  connect_keeps := by
    intro endpoint net io result net' socket h hopened
    simp only [streamTransport] at h
    split at h
    · cases h
      exact ⟨hopened, rfl⟩
    · cases h
      simp only [List.length_append, List.length_singleton]
      exact ⟨by omega, by simp [List.getD_eq_getElem?_getD, List.getElem?_append_left hopened]⟩
  send_writes := by
    intro socket net payload io result socket' net' hopened h
    obtain ⟨rfl, rfl, hok⟩ := sendOver_eq h
    obtain ⟨hbegins, hall⟩ := hwrite io 0 payload
    refine ⟨rfl, by simpa [Connections.add] using hopened, _, hbegins, ?_, ?_⟩
    · simp [Connections.add, List.getD_eq_getElem?_getD, hopened]
    · intro r hr
      exact ⟨(hok r hr).1, hall (hok r hr).2⟩
  send_keeps := by
    intro socket net payload io result socket' net' other _ h hne hother
    obtain ⟨rfl, rfl, -⟩ := sendOver_eq h
    refine ⟨by simpa [Connections.add] using hother, ?_⟩
    simp [Connections.add, List.getD_eq_getElem?_getD, hne.symm]

theorem sendAll_spec (io : StreamIo) (index : ℕ) (payload : Bytes) :
    (sendAll io index payload).2 <+: payload ∧
      ((sendAll io index payload).1 = .ok () → (sendAll io index payload).2 = payload) :=
  writeLoop_spec _ _ _ _ _

theorem sendEncrypted_spec (io : StreamIo) (index : ℕ) (payload : Bytes) :
    (sendEncrypted io index payload).2 <+: payload ∧
      ((sendEncrypted io index payload).1 = .ok () →
        (sendEncrypted io index payload).2 = payload) :=
  writeLoop_spec _ _ _ _ _

namespace Setup

variable {S : Setup ℕ Connections StreamIo} {s : S.State}

/-- In a state of the run, worker `i` has sent its first `n i` payloads over a connection of its
own; the totals never exceed that, and are equal to it, as 64-bit counters, once the supervisor
has joined the workers. -/
structure StreamBooks (s : S.State) (n : Fin S.workerCount → ℕ) : Prop where
  arrived : ∀ i socket, (s.workers i).handle = some socket →
    Arrived S i (s.workers i).pc (n i) (s.shared.world.wires.getD socket [])
  distinct : ∀ i j socket, (s.workers i).handle = some socket →
    (s.workers j).handle = some socket → i = j
  totals : s.shared.totalMessages ≤ ∑ i, n i ∧
    s.shared.totalBytes ≤ ∑ i, (S.frames i 0 (n i)).length
  joined : s.supervisor.Joined → s.shared.totalMessages = (∑ i, n i) % 2 ^ 64 ∧
    s.shared.totalBytes = (∑ i, (S.frames i 0 (n i)).length) % 2 ^ 64

theorem exists_streamBooks (port : StreamPort S.transport)
    (hwire : port.wire = fun net socket => net.wires.getD socket []) (h : S.machine.Reachable s) :
    ∃ n, StreamBooks s n := by
  obtain ⟨n, hs⟩ := delivering_of_reachable port h
  have hle := totals_le_carried (conserved_of_reachable h)
  refine ⟨n, ?_, hs.distinct, ?_, ?_⟩
  · intro i socket hhandle
    have harrived := (hs.sends i).arrived hhandle
    rwa [hwire] at harrived
  · rw [← hs.messages, ← hs.bytes]
    exact ⟨hle.1, hle.2.2⟩
  · intro hjoined
    have htotals := totals_of_joined h hjoined
    rw [← hs.messages, ← hs.bytes]
    exact ⟨congrArg Prod.fst htotals, congrArg (fun t : Tally => t.2.2) htotals⟩

variable (S) in
/-- Over TCP and TLS nothing is lost, doubled or moved: whatever the schedule, the partial writes,
the failures and the time of the stop. -/
theorem streamRun_delivers (hS : S.transport = tcpTransport ∨ S.transport = openSslTransport)
    (s : S.State) (hs : S.machine.Reachable s) : ∃ n, StreamBooks s n := by
  have hbooks {write : StreamIo → ℕ → Bytes → Except Failure Unit × Bytes}
      (hwrite : ∀ io index payload, (write io index payload).2 <+: payload ∧
        ((write io index payload).1 = .ok () → (write io index payload).2 = payload))
      (hT : S.transport = streamTransport write) : ∃ n, StreamBooks s n := by
    obtain ⟨endpoint, targetEps, workerCount, transport, payload, world⟩ := S
    subst hT
    exact exists_streamBooks (streamPort write hwrite) rfl hs
  rcases hS with htcp | htls
  · exact hbooks sendAll_spec htcp
  · exact hbooks sendEncrypted_spec htls

/-- Two workers over TCP, with a line break in every payload. -/
def twoConnections : Setup ℕ Connections StreamIo where
  endpoint := { protocol := .tcp }
  targetEps := 2
  workerCount := 2
  transport := tcpTransport
  payload := fun _ k => bytes "a\n" ++ decimal k
  world := {}

/-- Each call takes one byte. -/
def byteByByte : StreamIo := { answer := fun _ _ => .wrote 1 }

/-- The first call takes two bytes, and the next one finds the connection reset. -/
def resetLater : StreamIo :=
  { answer := fun _ call => if call = 0 then .wrote 2 else .failed 0 104 }

/-- The second worker connects first and sends two frames byte by byte; the first worker fails two
bytes into its first frame. -/
def firstBreaks : List (Action StreamIo 2) :=
  List.replicate 4 (.supervisor none) ++ List.replicate 2 (.worker secondWorker byteByByte none) ++
    List.replicate 4 (.worker firstWorker byteByByte none) ++
    List.replicate 17 (.worker secondWorker byteByByte none) ++
    List.replicate 6 (.worker firstWorker resetLater none)

theorem streamRun_delivers_firstBreaks :
    ∃ s, twoConnections.machine.exec twoConnections.initial firstBreaks = some s ∧
      s.shared.world.wires = [bytes "a\\n0\na\\n1\n", bytes "a\\"] ∧
      (s.workers (1 : Fin 2)).localMessages = 1 ∧ s.shared.totalMessages = 1 ∧
      ∃ n, StreamBooks s n := by
  obtain ⟨s, hrun, hwires, hlocal, htotal⟩ :
      ∃ s, twoConnections.machine.exec twoConnections.initial firstBreaks = some s ∧
        s.shared.world.wires = [bytes "a\\n0\na\\n1\n", bytes "a\\"] ∧
        (s.workers (1 : Fin 2)).localMessages = 1 ∧ s.shared.totalMessages = 1 := by
    -- `writeLoop` recurses on the length of what is left
    with_unfolding_all exact ⟨_, rfl, rfl, rfl, rfl⟩
  exact ⟨s, hrun, hwires, hlocal, htotal,
    streamRun_delivers twoConnections (.inl rfl) s (Machine.reachable_of_exec hrun)⟩

end Setup

end Application
end LogGenerator
