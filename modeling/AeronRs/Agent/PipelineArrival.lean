import AeronRs.Agent.Pipeline

/-! # A network that loses nothing

The system of `Pipeline` over a network that delivers every datagram once and in order. Three things
can still keep an offer from the subscriber: the poller had no slot for its frame, it was sent before
the first setup frame, when the receiver has no image to put it in, or it was waiting when the setup
frame went out, which then names a position behind it. Slots that cover every scan (`Covered`) exclude
the first, and setup frames that go out when nothing is waiting (`CaughtUp`) the third;
**`delivered_all_announced`** says that then all other offers are delivered, in order. -/

namespace AeronRs

open Runs

/-- The bytes of a frame determine it, within the range of the term counts. -/
theorem StreamFrame.bytes_inj {ids : StreamIds} (hT : 0 < ids.termLength)
    (hle : ids.termLength ≤ 2 ^ 31) {f g : StreamFrame ids.termLength} (hf : f.term < 2 ^ 31)
    (hg : g.term < 2 ^ 31) (h : f.bytes ids = g.bytes ids) : f = g := by
  have hstart : f.start = g.start := by
    rw [← framePosition_bytes hT hle hf, h, framePosition_bytes hT hle hg]
  have hpayload : f.payload = g.payload := by
    have hdrop := congrArg (List.drop 32) h
    change ((f.header ids).encode ++ f.payload).drop 32 =
      ((g.header ids).encode ++ g.payload).drop 32 at hdrop
    rwa [List.drop_left' (DataHeader.encode_length _), List.drop_left' (DataHeader.encode_length _)]
      at hdrop
  cases f
  cases g
  congr

theorem StreamFrame.map_bytes_inj {ids : StreamIds} (hT : 0 < ids.termLength)
    (hle : ids.termLength ≤ 2 ^ 31) {fs gs : List (StreamFrame ids.termLength)}
    (hfs : ∀ f ∈ fs, f.term < 2 ^ 31) (hgs : ∀ g ∈ gs, g.term < 2 ^ 31)
    (h : fs.map (StreamFrame.bytes ids) = gs.map (StreamFrame.bytes ids)) : fs = gs := by
  induction fs generalizing gs with
  | nil => exact (List.map_eq_nil_iff.mp h.symm).symm
  | cons f fs ih =>
      cases gs with
      | nil => cases h
      | cons g gs =>
          rw [List.map_cons, List.map_cons, List.cons.injEq] at h
          rw [List.forall_mem_cons] at hfs hgs
          rw [bytes_inj hT hle hfs.1 hgs.1 h.1, ih hfs.2 hgs.2 h.2]

/-- A publication's setup frame creates an image, unless its terms are too long for a signed word. -/
theorem SenderRun.Placed.onSetup_ne_none {ids : StreamIds} {setup : SetupHeader}
    {records : List LogRecord} {cursor : Nat} (h : Placed ids setup records cursor)
    {log : RawLog} (hlog : log.termLength = ids.termLength) (hT : ids.termLength ≤ 2 ^ 30)
    (handler : InlineHandler) (source : SockAddr) :
    ImageState.onSetup handler setup source ≠ none := by
  have hlen : setup.termLength.toNat = log.termLength := by
    rw [hlog, ← h.ids_eq]
    rfl
  have hge := log.termLength_ge
  have hpow := log.termLength_pow
  have hsigned : setup.termLength.toInt = log.termLength := by
    rw [BitVec.toInt_eq_toNat_of_lt (by omega), hlen]
  rw [← Option.isSome_iff_ne_none, ImageState.onSetup_isSome_iff, hsigned, hlen]
  exact ⟨by omega, hpow⟩

/-- While no data frame is refused, a setup frame that was emitted is announced with the data emitted
after it. -/
theorem SenderRun.AllAnnounced.of_emissions {ids : StreamIds} {i : Nat} {s : SenderRun}
    {l : StreamLog} {cursor : Nat} (h : s.AllAnnounced ids i l cursor) (hall : s.AllEmitted i)
    {pre post : List Emission} {setup : SetupHeader}
    (hsplit : s.emissions i = pre ++ .setup setup :: post) :
    Announced ids setup post l cursor := by
  obtain ⟨pre', post', hattempts, hpre, hpost⟩ := exists_attempt hsplit
  have hannounced := h pre' setup post' hattempts
  -- what was handed over and what was emitted have the same data, so the halves do too
  have hdata : post.filterMap Emission.dataBytes = post'.filterMap Emission.dataBytes := by
    have hlen := congrArg List.length hall
    have hpre' := (hpre.filterMap Emission.dataBytes).length_le
    have hpost' := (hpost.filterMap Emission.dataBytes).length_le
    rw [hsplit, hattempts, List.filterMap_append, List.filterMap_append, List.length_append,
      List.length_append, List.filterMap_cons_none rfl, List.filterMap_cons_none rfl] at hlen
    exact (hpost.filterMap _).eq_of_length (by omega)
  refine { hannounced with follows := ?_ }
  rw [hdata]
  exact hannounced.follows

namespace PipelineRun

variable {ids : StreamIds} {i : Nat}

/-! ## What arrives -/

/-- Datagrams arrive in the order in which they were sent, each of them once. -/
def InOrder (i : Nat) (s : PipelineRun) : PipelineAction → Prop
  | .arrive _ _ _ datagram => s.arrived ++ [datagram] <+: s.sender.datagrams i
  | _ => True

/-- Setup frames go out when nothing is waiting to be sent. -/
def CaughtUp (i : Nat) (s : PipelineRun) : PipelineAction → Prop
  | .sender a => s.sender.CaughtUp i a
  | _ => True

/-- No two different control messages of a cycle share a buffer, so that a setup frame is transmitted
as it was built. -/
def Intact (s : PipelineRun) : PipelineAction → Prop
  | .sender (.doSend nowNs) => s.sender.agent.SameByBuffer nowNs
  | _ => True

/-- The condition of a run over a network that loses nothing: what the publication hands to the poller
is taken and transmitted, and arrives. -/
def Lossless (ids : StreamIds) (i : Nat) (s : PipelineRun) (a : PipelineAction) : Prop :=
  s.Clear ids i a ∧ s.CaughtUp i a ∧ s.InOrder i a ∧ s.Covered i a ∧ s.Intact a

instance (i : Nat) (s : PipelineRun) : (a : PipelineAction) → Decidable (s.InOrder i a)
  | .arrive _ _ _ datagram =>
      inferInstanceAs (Decidable (s.arrived ++ [datagram] <+: s.sender.datagrams i))
  | .sender _ | .poll _ => isTrue trivial

instance (i : Nat) (s : PipelineRun) : (a : PipelineAction) → Decidable (s.CaughtUp i a)
  | .sender _ => inferInstanceAs (Decidable (SenderRun.CaughtUp _ _ _))
  | .arrive .. | .poll _ => isTrue trivial

instance (s : PipelineRun) : (a : PipelineAction) → Decidable (s.Intact a)
  | .sender (.doSend nowNs) => inferInstanceAs (Decidable (s.sender.agent.SameByBuffer nowNs))
  | .sender (.offer _ _) | .sender (.statusMessage _) | .sender (.poller _) => isTrue trivial
  | .arrive .. | .poll _ => isTrue trivial

instance (ids : StreamIds) (i : Nat) (s : PipelineRun) (a : PipelineAction) :
    Decidable (s.Lossless ids i a) :=
  inferInstanceAs (Decidable (_ ∧ _ ∧ _ ∧ _ ∧ _))

def isDataFrame (x : Emission) : Bool := x.dataBytes.isSome

/-- The number of data frames that were emitted before the first setup frame. -/
def unannounced (emissions : List Emission) : Nat := (emissions.takeWhile isDataFrame).length

/-- **The history of an image follows what has arrived**: it starts with the first setup frame, and the
frames received since are the data frames behind it. -/
def Follows (ids : StreamIds) (done : List Emission) : ImageHistory ids.termLength → Prop
  | none => ∀ y ∈ done, isDataFrame y = true
  | some (setup, as) => ∃ pre post, done = pre ++ .setup setup :: post ∧
      (∀ y ∈ pre, isDataFrame y = true) ∧
      (ImageRun.arrivals as).map (StreamFrame.bytes ids) = post.filterMap Emission.dataBytes

theorem Next.follows {x x' : ImageHistory ids.termLength} {y : Emission} (hnext : Next ids x y x')
    {done : List Emission} (h : Follows ids done x)
    (hcreates : ∀ setup, y = .setup setup → ∀ handler source,
      ImageState.onSetup handler setup source ≠ none) :
    Follows ids (done ++ [y]) x' := by
  cases hnext with
  | created setup => exact ⟨done, [], rfl, h, rfl⟩
  | refused handler source hnone => exact absurd hnone (hcreates _ rfl handler source)
  | repeated setup setup' as =>
      obtain ⟨pre, post, rfl, hpre, hpost⟩ := h
      refine ⟨pre, post ++ [.setup setup'], by simp, hpre, ?_⟩
      rw [hpost, List.filterMap_append]
      exact (List.append_nil _).symm
  | ignored bytes =>
      intro y hy
      rcases List.mem_append.mp hy with hold | hnew
      · exact h y hold
      · obtain rfl := List.mem_singleton.mp hnew
        rfl
  | received setup as handler f =>
      obtain ⟨pre, post, rfl, hpre, hpost⟩ := h
      refine ⟨pre, post ++ [.data (f.bytes ids)], by simp, hpre, ?_⟩
      rw [ImageRun.arrivals, List.filterMap_append, List.map_append, List.filterMap_append, ← hpost]
      rfl

/-- **What is known along a lossless run**: no data frame was refused, the datagrams `done` have
arrived, the datagrams `rest` are in flight, and the history of the image follows the first. -/
structure KeepsUp (ids : StreamIds) (i : Nat) (s : PipelineRun) (e : PublicationEntry)
    (l : StreamLog) (n b pub : Nat) (x : ImageHistory ids.termLength) (done rest : List Emission) :
    Prop where
  carries : s.Carries ids i e l n b pub x
  announced : s.sender.AllAnnounced ids i l
    (n * ids.termLength + e.publication.toNetwork.termOffset)
  allEmitted : s.sender.AllEmitted i
  emissions : s.sender.emissions i = done ++ rest
  arrived : s.arrived = done.map Emission.bytes
  follows : Follows ids done x

namespace KeepsUp

variable {s : PipelineRun} {e : PublicationEntry} {l : StreamLog} {n b pub : Nat}
  {x : ImageHistory ids.termLength} {done rest : List Emission}

/-- An action of the sender agent puts more in flight. -/
theorem sender (h : s.KeepsUp ids i e l n b pub x done rest) {a : SenderAction}
    (hclear : s.Lossless ids i (.sender a)) :
    ∃ e' l' n' b' pub' rest', (s.step i (.sender a)).KeepsUp ids i e' l' n' b' pub' x done rest' := by
  obtain ⟨hclear, hcaught, -, hcovered, -⟩ := hclear
  obtain ⟨e', l', n', b', pub', taken, new, hnext, hadvances⟩ := h.carries.sender hclear
  have hemissions : (s.sender.step a).emissions i =
      done ++ (rest ++ emissionsOf i (SenderRun.sends s.sender.agent a)) := by
    rw [SenderRun.emissions_step, h.emissions, List.append_assoc]
  exact ⟨e', l', n', b', pub', _, hnext,
    h.announced.step h.carries.streams hcaught hnext.streams hadvances,
    h.carries.allEmitted_step h.allEmitted hcovered, hemissions, h.arrived, h.follows⟩

theorem arrive (h : s.KeepsUp ids i e l n b pub x done rest) (hT : ids.termLength ≤ 2 ^ 30)
    {endpoint : ReceiveChannelEndpoint} {handler : InlineHandler} {source : SockAddr}
    {datagram : List UInt8} (hclear : s.Lossless ids i (.arrive endpoint handler source datagram)) :
    ∃ x' done' rest', (s.step i (.arrive endpoint handler source datagram)).KeepsUp ids i e l n b pub
      x' done' rest' := by
  obtain ⟨hclear, -, horder, hcovered, -⟩ := hclear
  -- the datagram is the first one in flight
  change s.arrived ++ [datagram] <+: (s.sender.emissions i).map Emission.bytes at horder
  rw [h.arrived, h.emissions, List.map_append, List.prefix_append_right_inj] at horder
  obtain ⟨y, rest', rfl, rfl⟩ : ∃ y rest', rest = y :: rest' ∧ datagram = y.bytes := by
    cases rest with
    | nil => cases List.prefix_nil.mp horder
    | cons y rest' => exact ⟨y, rest', rfl, (List.cons_prefix_cons.mp horder).1⟩
  have hemitted : y ∈ s.sender.emissions i := by
    rw [h.emissions]
    exact List.mem_append_right _ List.mem_cons_self
  obtain ⟨x', hnext, hhistory⟩ := h.carries.arrive hemitted hclear
  obtain ⟨image, himage⟩ := step_arrive_eq (List.mem_map_of_mem hemitted) endpoint handler source
  refine ⟨x', done ++ [y], rest', hnext, ?_, h.carries.allEmitted_step h.allEmitted hcovered, ?_, ?_,
    ?_⟩
  · rw [himage]
    exact h.announced
  · rw [himage, h.emissions, List.append_assoc]
    rfl
  · rw [himage, h.arrived, List.map_append]
    rfl
  · refine hhistory.follows h.follows ?_
    rintro setup rfl
    exact (h.carries.setups setup (SenderRun.mem_attempts hemitted)).onSetup_ne_none
      h.carries.streams.termLength_eq hT

theorem poll (h : s.KeepsUp ids i e l n b pub x done rest) {limit : Int}
    (hclear : s.Lossless ids i (.poll limit)) :
    ∃ x', (s.step i (.poll limit)).KeepsUp ids i e l n b pub x' done rest := by
  have hsender : (s.step i (.poll limit)).sender = s.sender := step_sender_eq s (by simp)
  have harrived : (s.step i (.poll limit)).arrived = s.arrived := by
    unfold PipelineRun.step
    dsimp only
    split <;> rfl
  refine ⟨_, h.carries.poll hclear.1, hsender ▸ h.announced, hsender ▸ h.allEmitted,
    hsender ▸ h.emissions, harrived ▸ h.arrived, ?_⟩
  have hfollows := h.follows
  cases x with
  | none => exact hfollows
  | some history =>
      obtain ⟨pre, post, hdone, hpre, hpost⟩ := hfollows
      refine ⟨pre, post, hdone, hpre, ?_⟩
      rw [← hpost, ImageRun.arrivals, List.filterMap_append]
      exact congrArg _ (List.append_nil _)

/-- **Step.** -/
theorem step (h : s.KeepsUp ids i e l n b pub x done rest) (hT : ids.termLength ≤ 2 ^ 30)
    {a : PipelineAction} (hclear : s.Lossless ids i a) :
    ∃ e' l' n' b' pub' x' done' rest',
      (s.step i a).KeepsUp ids i e' l' n' b' pub' x' done' rest' := by
  cases a with
  | sender a =>
      obtain ⟨e', l', n', b', pub', rest', hnext⟩ := h.sender hclear
      exact ⟨e', l', n', b', pub', x, done, rest', hnext⟩
  | arrive endpoint handler source datagram =>
      obtain ⟨x', done', rest', hnext⟩ := h.arrive hT hclear
      exact ⟨e, l, n, b, pub, x', done', rest', hnext⟩
  | poll limit =>
      obtain ⟨x', hnext⟩ := h.poll hclear
      exact ⟨e, l, n, b, pub, x', done, rest, hnext⟩

end KeepsUp

/-- **Run.** -/
theorem keepsUp_run {agent : SenderAgent} (h : agent.Initial) {e : PublicationEntry}
    (he : agent.publications[i]? = some e)
    (hT : e.publication.toNetwork.ids.termLength ≤ 2 ^ 30) {as : List PipelineAction}
    (hrun : Meets (Lossless e.publication.toNetwork.ids i) (step i) (start agent) as) :
    ∃ e' l n b pub x done rest, (run (step i) (start agent) as).KeepsUp
      e.publication.toNetwork.ids i e' l n b pub x done rest :=
  @run_invariant _ _ (Lossless e.publication.toNetwork.ids i) (step i)
    (fun s => ∃ e' l n b pub x done rest,
      s.KeepsUp e.publication.toNetwork.ids i e' l n b pub x done rest)
    (fun s a hs hclear => by
      obtain ⟨e', l, n, b, pub, x, done, rest, hkeeps⟩ := hs
      exact hkeeps.step hT hclear)
    _ ⟨e, _, 0, 0, 0, none, [], [], carries_start h he,
      fun pre setup post hnil => (by cases pre <;> cases hnil), SenderRun.allEmitted_start i agent,
      rfl, rfl,
      fun y hy => absurd hy List.not_mem_nil⟩ as hrun

/-! ## What is delivered -/

theorem delivered_polls {s : PipelineRun} {r : ImageRun ids} (himage : s.image = some r.state)
    (hdelivered : s.delivered = r.delivered) (k : Nat) :
    (run (step i) s (List.replicate k (.poll 1))).delivered =
      (run ImageRun.step r (List.replicate k (.poll 1))).delivered := by
  induction k generalizing s r with
  | zero => exact hdelivered
  | succ k ih =>
      have hstep : s.step i (.poll 1) = { s with
          image := some (r.state.poll 1).1, delivered := s.delivered ++ (r.state.poll 1).2 } := by
        unfold step
        simp only [himage]
      rw [List.replicate_succ, List.replicate_succ, run_cons, run_cons, hstep]
      exact ih rfl (congrArg (· ++ _) hdelivered)

theorem length_filterMap_acceptedOf (records : List LogRecord) :
    (records.filterMap PubRun.acceptedOf).length = (records.filter LogRecord.isData).length := by
  simpa using congrArg List.length (map_offeredFrame ⟨0, 0, 0, 0⟩ records)

theorem unannounced_eq {pre post : List Emission} {setup : SetupHeader}
    (h : ∀ y ∈ pre, isDataFrame y = true) :
    unannounced (pre ++ .setup setup :: post) = (pre.filterMap Emission.dataBytes).length := by
  have hlen : ∀ ys : List Emission, (∀ y ∈ ys, isDataFrame y = true) →
      ys.length = (ys.filterMap Emission.dataBytes).length := by
    intro ys hys
    induction ys with
    | nil => rfl
    | cons y ys ih =>
        rw [List.forall_mem_cons] at hys
        cases y with
        | setup header => cases hys.1
        | data bytes => exact congrArg (· + 1) (ih hys.2)
  rw [unannounced, List.takeWhile_append_of_pos h, ← hlen pre h]
  exact congrArg List.length (List.append_nil pre)

/-- **What is delivered once nothing is in flight or waiting**: the offers behind the first setup
frame. -/
theorem delivered_polled {s : PipelineRun} {e : PublicationEntry} {l : StreamLog}
    {n b : Nat} {setup : SetupHeader} {as : List (ImageAction ids.termLength)}
    {done : List Emission} (h : s.KeepsUp ids i e l n b b (some (setup, as)) done []) :
    ∃ k, (run (step i) s (List.replicate k (.poll 1))).delivered.map Fragment.offered =
      s.accepted.drop (unannounced (s.sender.emissions i)) := by
  obtain ⟨pre, post, rfl, hpre, harrivals⟩ := h.follows
  have hemissions : s.sender.emissions i = pre ++ .setup setup :: post :=
    h.emissions.trans (List.append_nil _)
  have hstreams := h.carries.streams
  have hannounced := h.announced.of_emissions h.allEmitted hemissions
  have htracks : s.Tracks ids i l.sent setup as := h.carries.image
  obtain ⟨before, after, frames, hsent, hrecords, hbytes, hsorted, hframes⟩ :=
    hannounced.exists_frames hstreams
  obtain ⟨hT, hle⟩ := hstreams.termLength_bounds
  -- the frames that have arrived are those sent behind the setup frame
  have heq : ImageRun.arrivals as = frames :=
    StreamFrame.map_bytes_inj hT hle
      (fun f hf => hstreams.term_lt (hstreams.represents.tiles_sent.mem (htracks.arrived f hf)).2.2)
      (fun f hf => (hframes f hf).1) (harrivals.trans hbytes)
  obtain ⟨handler, source, st, hsetup, hpaced, himage, hdelivered⟩ := htracks.created
  have hoffset := hannounced.offset_le
  have hdvd := hannounced.offset_dvd
  obtain rfl := hannounced.ids_eq
  obtain ⟨k, hall⟩ := ImageRun.delivered_all hsetup htracks.active hoffset hdvd
    (heq ▸ fun f hf => (hframes f hf).1) (heq ▸ hsorted) (heq ▸ fun f hf => (hframes f hf).2) hpaced
  refine ⟨k, ?_⟩
  rw [delivered_polls himage hdelivered, ← run_append, hall, heq, List.map_map, h.carries.accepted]
  -- the offers are those before the setup frame and those behind it
  have hpending : l.pending = [] := hstreams.represents.tiles_pending.eq_nil
  have htail : l.tail.filterMap PubRun.acceptedOf = [] := by
    rw [List.filterMap_eq_nil_iff]
    intro r hr
    have hpad := hstreams.represents.tail_pads r hr
    cases r with
    | data start payload => cases hpad
    | pad start len => rfl
  have hcount : unannounced (s.sender.emissions i) =
      (before.filterMap PubRun.acceptedOf).length := by
    have hdata := congrArg List.length (h.allEmitted.trans hstreams.data)
    have hpost : ((Emission.setup setup :: post).filterMap Emission.dataBytes).length =
        (after.filter LogRecord.isData).length := by
      rw [← hrecords, List.length_map, ← List.length_map (StreamFrame.bytes setup.ids), ← hbytes]
      rfl
    rw [hemissions, hsent, List.filterMap_append, List.filter_append, List.map_append,
      List.length_append, List.length_append, List.length_map, List.length_map, hpost] at hdata
    rw [hemissions, unannounced_eq hpre, length_filterMap_acceptedOf]
    omega
  rw [StreamLog.records, hsent, hpending, List.nil_append, List.filterMap_append,
    List.filterMap_append, htail, List.append_nil, hcount, List.drop_left,
    filterMap_acceptedOf_records hrecords]
  rfl

/-- **All offers behind the first setup frame are delivered.** In a run of a new publication over a
network that loses nothing, in which the send slots cover every scan and setup frames go out when
nothing is waiting: once everything published is sent and everything sent has arrived, a subscriber
that polls often enough has been given all accepted offers in order, each with the position it
returned, apart from those that were sent before the first setup frame. -/
theorem delivered_all_announced {agent : SenderAgent} (h : agent.Initial) {i : Nat}
    {e : PublicationEntry} (he : agent.publications[i]? = some e)
    (hT : e.publication.toNetwork.ids.termLength ≤ 2 ^ 30) (as : List PipelineAction)
    (hrun : Meets (Lossless e.publication.toNetwork.ids i) (step i) (start agent) as)
    (hsetup : ∃ y ∈ (run (step i) (start agent) as).sender.emissions i, isDataFrame y = false)
    (hsent : ∀ e' ∈ (run (step i) (start agent) as).sender.agent.publications[i]?,
      e'.publication.toNetwork.senderPosition = e'.publication.toNetwork.pubPosition)
    (harrived : (run (step i) (start agent) as).arrived =
      (run (step i) (start agent) as).sender.datagrams i) :
    ∃ k, (run (step i) (start agent)
        (as ++ List.replicate k (.poll 1))).delivered.map Fragment.offered =
      (run (step i) (start agent) as).accepted.drop
        (unannounced ((run (step i) (start agent) as).sender.emissions i)) := by
  obtain ⟨e', l, n, b, pub, x, done, rest, hkeeps⟩ := keepsUp_run h he hT hrun
  simp only [run_append]
  generalize run (step i) (start agent) as = s at *
  -- nothing is in flight
  obtain rfl : rest = [] := by
    have hlen := congrArg List.length (hkeeps.arrived.symm.trans harrived)
    rw [SenderRun.datagrams, hkeeps.emissions] at hlen
    simpa using hlen
  -- nothing is waiting
  obtain rfl : pub = b := by
    have heq := hsent e' hkeeps.carries.streams.entry
    rw [hkeeps.carries.streams.represents.sender, hkeeps.carries.streams.represents.pub] at heq
    exact_mod_cast heq.symm
  rcases x with - | ⟨setup, history⟩
  · obtain ⟨y, hy, hfalse⟩ := hsetup
    rw [hkeeps.emissions, List.append_nil] at hy
    rw [hkeeps.follows y hy] at hfalse
    cases hfalse
  · exact delivered_polled hkeeps

/-- The setup frame and two frames, which arrive in order. -/
def inOrder : List PipelineAction :=
  [.sender (.doSend 1000), .sender (.offer 0 [1]), .sender (.offer 0 [2]), .sender (.doSend 1001),
    arrival (SenderRun.firstSetup 0).encode, arrival ((LogRecord.data 0 [1]).frame ⟨5, 7, 1, 128⟩),
    .poll 10, arrival ((LogRecord.data 64 [2]).frame ⟨5, 7, 1, 128⟩)]

theorem delivered_all_in_order :
    ∃ k, (run (step 0) (start SenderAgent.oneNewPublication)
        (inOrder ++ List.replicate k (.poll 1))).delivered.map Fragment.offered =
      [(64, [1]), (128, [2])] :=
  delivered_all_announced SenderAgent.oneNewPublication_initial (i := 0) rfl (by decide +kernel)
    inOrder (by decide +kernel) (by decide +kernel) (by decide +kernel) (by decide +kernel)

end PipelineRun

end AeronRs
