import AeronRs.Agent.Consumption
import AeronRs.Agent.Handshake
import AeronRs.Agent.SenderLimit

/-! # Flow control

A publication, the agent that sends it and the image that receives it, with status messages back. A
pad moves the sender and is never sent, so the consumption position that the receiver reports stays
behind it. With the default window of half a term a pad of half a term or more uses up the window:
the sender then stands at its limit with data to send, and no status message can move the limit.
**`RotatesLate`** is the condition that no such pad is written. A frame that the poller refuses moves
the sender in the same way, so the send slots must cover every scan as well (`SenderRun.Covered`). -/

namespace AeronRs

open Runs

/-! ## Pads -/

/-- A pad covers less than half of its term, and all that is left of it. -/
def LatePad (T : Nat) (r : LogRecord) : Prop :=
  r.isData = false → T < 2 * (r.start % T) ∧ r.start % T + r.length = T

/-- **Behind the last data record there is less than half a term**, if the pads are late: there is at
most one pad, since after a pad a term begins. -/
theorem Tiles.near_data {T b : Nat} (hT : 0 < T) {rs : List LogRecord} (h : Tiles T 0 rs b)
    (hlate : ∀ r ∈ rs, LatePad T r) :
    rs = [] ∨ ∃ r ∈ rs, r.isData = true ∧ 2 * b < 2 * (r.start + r.length) + T := by
  rcases List.eq_nil_or_concat rs with rfl | ⟨init, r, rfl⟩
  · exact .inl rfl
  · right
    rw [List.concat_eq_append] at h hlate ⊢
    obtain ⟨c, hinit, hstart, -, hend⟩ := tiles_append.mp h
    obtain rfl : c + r.length = b := hend
    cases hdata : r.isData with
    | true => exact ⟨r, by simp, hdata, by omega⟩
    | false =>
        obtain ⟨hhalf, hfull⟩ := hlate r (by simp) hdata
        rw [hstart] at hhalf hfull
        -- the record before the pad does not end a term
        rcases List.eq_nil_or_concat init with rfl | ⟨init, p, rfl⟩
        · obtain rfl : 0 = c := hinit
          rw [Nat.zero_mod] at hhalf
          omega
        · rw [List.concat_eq_append] at hinit hlate ⊢
          obtain ⟨d, -, rfl, -, hpad⟩ := tiles_append.mp hinit
          obtain rfl : p.start + p.length = c := hpad
          cases hprev : p.isData with
          | true => exact ⟨p, by simp, hprev, by omega⟩
          | false =>
              obtain ⟨-, hends⟩ := hlate p (by simp) hprev
              have hmod : (p.start + p.length) % T = 0 := by
                have hdiv := Nat.div_add_mod' p.start T
                have hsum : p.start + p.length = (p.start / T + 1) * T := by
                  rw [Nat.succ_mul]
                  omega
                rw [hsum]
                exact Nat.mul_mod_left _ _
              rw [hmod] at hhalf
              omega

namespace SenderRun

/-- An offer to publication `i` that rotates finds more than half of the term used. -/
def RotatesLate (i : Nat) (s : SenderRun) : SenderAction → Prop
  | .offer pubIdx payload => pubIdx = i → ∀ e ∈ s.agent.publications[i]?,
      e.publication.toNetwork.Rotates payload →
        e.publication.toNetwork.termLength < 2 * e.publication.toNetwork.termOffset
  | _ => True

instance (i : Nat) (s : SenderRun) : (a : SenderAction) → Decidable (s.RotatesLate i a)
  | .offer _ _ => inferInstanceAs (Decidable (_ → ∀ e ∈ s.agent.publications[i]?, _))
  | .statusMessage _ => isTrue trivial
  | .doSend _ => isTrue trivial
  | .poller _ => isTrue trivial

variable {ids : StreamIds} {i : Nat} {s : SenderRun} {e e' : PublicationEntry} {l l' : StreamLog}
  {n n' b b' pub pub' : Nat} {a : SenderAction} {taken new : List LogRecord}

theorem Advances.latePads (hadvances : Advances ids i s a e l l' n taken new)
    (h : s.Streams ids i e l n b pub) (hclear : s.RotatesLate i a)
    (hlate : ∀ r ∈ l.sent ++ (l.pending ++ l.tail), LatePad ids.termLength r) :
    ∀ r ∈ l'.sent ++ (l'.pending ++ l'.tail), LatePad ids.termLength r := by
  intro r hr hpad
  rw [hadvances.sent, List.append_assoc, hadvances.unsent, ← List.append_assoc] at hr
  rcases List.mem_append.mp hr with hold | hnew
  · exact hlate r hold hpad
  · obtain ⟨payload, rfl, hrotates, hstart, hlength⟩ := hadvances.pads r hnew hpad
    have hhalf := hclear rfl e h.entry hrotates
    have hoff := h.represents.offset_le
    rw [h.termLength_eq] at hhalf hoff
    omega

theorem Streams.sent_frames (h : s.Streams ids i e l n b pub) :
    ∃ frames : List (StreamFrame ids.termLength),
      frames.map StreamFrame.record = l.sent.filter LogRecord.isData ∧
      ∀ f ∈ frames, f.term < 2 ^ 31 := by
  have htiles := h.represents.tiles_sent
  rw [h.termLength_eq] at htiles
  obtain ⟨-, frames, hframes, -, hbounds⟩ := htiles.exists_frames (Nat.dvd_zero 32)
  exact ⟨frames, hframes, fun f hf => h.term_lt (hbounds f hf).2⟩

/-! ## The limit of the sender -/

def proposedLimit (ids : StreamIds) (sm : StatusMessage) : Int :=
  (sm.consumptionTermId - ids.initialTermId).toInt * ids.termLength +
    sm.consumptionTermOffset.toNat + sm.receiverWindow.toInt

theorem Streams.proposedLimit_eq (h : s.Streams ids i e l n b pub) (sm : StatusMessage) :
    e.proposedLimit sm = proposedLimit ids sm := by
  rw [← h.ids_eq]
  rfl

def Granted (ids : StreamIds) (applied : List StatusMessage) (limit : Int) : Prop :=
  ∀ sm ∈ applied, sm.sessionId = ids.sessionId → sm.streamId = ids.streamId →
    0 ≤ proposedLimit ids sm → proposedLimit ids sm < 2 ^ 62 - 1 → proposedLimit ids sm ≤ limit

/-- **No action moves the limit back.** -/
theorem Streams.senderLimit_le (h : s.Streams ids i e l n b pub)
    (he' : (s.step a).agent.publications[i]? = some e') : e.senderLimit ≤ e'.senderLimit :=
  h.inv.limitKept i a e h.entry e' he'

def applies : SenderAction → List StatusMessage
  | .statusMessage sm => [sm]
  | _ => []

theorem Granted.step (h : s.Streams ids i e l n b pub) {applied : List StatusMessage}
    (hgranted : Granted ids applied e.senderLimit)
    (he' : (s.step a).agent.publications[i]? = some e') :
    Granted ids (applied ++ applies a) e'.senderLimit := by
  intro sm hsm hsession hstream hlo hhi
  rcases List.mem_append.mp hsm with hold | hnew
  · exact le_trans (hgranted sm hold hsession hstream hlo hhi) (h.senderLimit_le he')
  · -- the action is the status message
    cases a with
    | statusMessage sm' =>
        obtain rfl := List.mem_singleton.mp hnew
        obtain rfl := Option.some.inj ((SenderAgent.statusMessage_getElem? h.entry sm).symm.trans he')
        rw [← h.ids_eq] at hsession hstream
        rw [← h.proposedLimit_eq sm] at hlo hhi ⊢
        exact PublicationEntry.proposedLimit_le (h.inv.inRange e (List.mem_of_getElem? h.entry))
          hsession.symm hstream.symm hlo hhi
    | offer | doSend | poller => exact absurd hnew List.not_mem_nil

end SenderRun

/-! ## Publication, sender and image -/

/-- A sender agent, the image of one of its publications, and the status messages that the agent has
applied. -/
structure FlowRun (ids : StreamIds) where
  sender : SenderRun
  image : Option (ImageRun ids)
  applied : List StatusMessage

/-- What happens: an action of the sender agent, or the arrival of a frame. -/
inductive FlowAction (T : Nat)
  | sender (action : SenderAction)
  | setup (handler : InlineHandler) (header : SetupHeader) (source : SockAddr)
  | data (handler : InlineHandler) (frame : StreamFrame T)

namespace FlowRun

variable {ids : StreamIds} {i : Nat}

/-- An agent before its first cycle, and no image yet. -/
def start (ids : StreamIds) (agent : SenderAgent) : FlowRun ids := ⟨.start agent, none, []⟩

/-- One action. A frame arrives only if publication `i` has emitted it, any number of times; the
first setup frame creates the image, with the default window. -/
def step (i : Nat) (s : FlowRun ids) : FlowAction ids.termLength → FlowRun ids
  | .sender a =>
      { s with sender := s.sender.step a, applied := s.applied ++ SenderRun.applies a }
  | .setup handler header source =>
      if .setup header ∈ s.sender.emissions i ∧ s.image = none then
        { s with
          image := (ImageState.onSetup { handler with receiverWindowOverride := none } header
            source).map (ImageRun.start ids) }
      else s
  | .data handler f =>
      if .data (f.bytes ids) ∈ s.sender.emissions i then
        { s with image := s.image.map (·.step (.data handler f)) }
      else s

/-- **Nothing is in flight**: the image has accepted every data frame that the poller has taken, and a
status message with its consumption position has been applied. -/
def Quiet (i : Nat) (s : FlowRun ids) : Prop :=
  ∃ r ∈ s.image,
    (∀ bytes ∈ (s.sender.emissions i).filterMap Emission.dataBytes,
      ∃ f ∈ r.accepted, f.bytes ids = bytes) ∧
    ∃ sm ∈ s.applied, sm = (r.state.entry.statusMessage sm.receiverId).frame

/-- **The window is open** if there is data to send: the window that `do_send` computes is positive,
and so is the limit of its scan. -/
def Open (i : Nat) (s : FlowRun ids) : Prop :=
  ∀ e ∈ s.sender.agent.publications[i]?, e.senderPosition < e.pubPosition →
    0 < wrapI64 (e.senderLimit - e.senderPosition) ∧ 0 < e.available

instance (i : Nat) (s : FlowRun ids) : Decidable (s.Quiet i) :=
  inferInstanceAs (Decidable (∃ r ∈ s.image,
    (∀ bytes ∈ (s.sender.emissions i).filterMap Emission.dataBytes, _) ∧ ∃ sm ∈ s.applied, _))

instance (i : Nat) (s : FlowRun ids) : Decidable (s.Open i) :=
  inferInstanceAs (Decidable (∀ e ∈ s.sender.agent.publications[i]?, _))

/-- The condition of a run: offers rotate clear of the sender and late in their term, the send slots
cover every scan, and the terms and offsets of what arrives are within range. -/
def Clear (i : Nat) (s : FlowRun ids) : FlowAction ids.termLength → Prop
  | .sender a => s.sender.OffersClear i a ∧ s.sender.RotatesLate i a ∧ s.sender.Covered i a
  | .setup _ header _ => header.activeTerm < 2 ^ 31
  | .data _ f => f.term < 2 ^ 31 ∧ ∀ r ∈ s.image, Noticed ids r.state.entry f

instance (i : Nat) (s : FlowRun ids) : (a : FlowAction ids.termLength) → Decidable (s.Clear i a)
  | .sender _ => inferInstanceAs (Decidable (_ ∧ _ ∧ _))
  | .setup _ _ _ => inferInstanceAs (Decidable (_ < _))
  | .data _ _ => inferInstanceAs (Decidable (_ ∧ ∀ r ∈ s.image, _))

/-- What is known along a run: the stream of the publication with its pads and setup frames, that no
data frame was refused, the limits granted, and what the image reports. -/
structure Flows (i : Nat) (s : FlowRun ids) (e : PublicationEntry) (l : StreamLog) (n b pub : Nat) :
    Prop where
  streams : s.sender.Streams ids i e l n b pub
  latePads : ∀ r ∈ l.sent ++ (l.pending ++ l.tail), LatePad ids.termLength r
  setups : ∀ header, .setup header ∈ s.sender.attempts i →
    header.ids = ids ∧ header.termOffset.toNat ≤ ids.termLength
  allEmitted : s.sender.AllEmitted i
  granted : SenderRun.Granted ids s.applied e.senderLimit
  image : ∀ r ∈ s.image, ∃ A, Holds ids r.state.entry r.state.image.inner A r.accepted ∧
    Consumes ids r.state.entry A r.accepted

namespace Flows

variable {s : FlowRun ids} {e : PublicationEntry} {l : StreamLog} {n b pub : Nat}

theorem sender (h : s.Flows i e l n b pub) {a : SenderAction} (hclear : s.Clear i (.sender a)) :
    ∃ e' l' n' b' pub', (s.step i (.sender a)).Flows i e' l' n' b' pub' := by
  obtain ⟨e', l', n', b', pub', taken, new, hnext, hadvances⟩ := h.streams.step hclear.1
  refine ⟨e', l', n', b', pub', hnext, hadvances.latePads h.streams hclear.2.1 h.latePads, ?_,
    h.allEmitted.step h.streams.inv h.streams.entry hclear.2.2,
    SenderRun.Granted.step h.streams h.granted hnext.entry, h.image⟩
  intro header hmem
  change _ ∈ (s.sender.step a).attempts i at hmem
  rw [hadvances.attempts, List.mem_append, List.mem_append] at hmem
  rcases hmem with hold | hdue | hdata
  · exact h.setups header hold
  · -- a setup frame that is due is that of the publication
    obtain ⟨hids, hoffset, -⟩ := h.streams.setupFrame_spec
    unfold SenderRun.setupsOf PublicationEntry.dueSetup at hdue
    split at hdue
    · split_ifs at hdue with hset
      · obtain rfl := Emission.setup.inj (List.mem_singleton.mp hdue)
        exact ⟨hids, hoffset⟩
      · cases hdue
    · cases hdue
  · obtain ⟨r, -, hr⟩ := List.mem_map.mp hdata
    cases hr

theorem setup (h : s.Flows i e l n b pub) {handler : InlineHandler} {header : SetupHeader}
    {source : SockAddr} (hclear : s.Clear i (.setup handler header source)) :
    (s.step i (.setup handler header source)).Flows i e l n b pub := by
  unfold step
  dsimp only
  split_ifs with hfirst
  · obtain ⟨hids, hoffset⟩ := h.setups header (SenderRun.mem_attempts hfirst.1)
    refine ⟨h.streams, h.latePads, h.setups, h.allEmitted, h.granted, fun r hr => ?_⟩
    obtain ⟨state, hstate, rfl⟩ := Option.map_eq_some_iff.mp hr
    subst hids
    exact ⟨_, ImageRun.holds_onSetup hstate hclear, Consumes.onSetup hstate rfl hoffset⟩
  · exact h

theorem data (h : s.Flows i e l n b pub) {handler : InlineHandler} {f : StreamFrame ids.termLength}
    (hclear : s.Clear i (.data handler f)) :
    (s.step i (.data handler f)).Flows i e l n b pub := by
  unfold step
  dsimp only
  split_ifs with hemitted
  · refine ⟨h.streams, h.latePads, h.setups, h.allEmitted, h.granted, fun r' hr' => ?_⟩
    obtain ⟨r, hr, rfl⟩ := Option.map_eq_some_iff.mp hr'
    obtain ⟨A, hholds, hconsumes⟩ := h.image r hr
    obtain ⟨hterm, hnoticed⟩ := hclear
    rcases hholds.onData_cases hterm handler with
      ⟨haccepts, hstored, hnext⟩ | ⟨haccepts, hstored, hentry, -, hnext⟩
    · rw [ImageRun.accepted_step_data hstored]
      exact ⟨max A f.term, hnext,
        hconsumes.onData hholds hterm haccepts (hnoticed r hr) handler⟩
    · rw [ImageRun.accepted_step_rejected hstored]
      refine ⟨A, hnext, ?_⟩
      change Consumes ids (r.state.onData handler (f.header ids) f.payload).1.entry A r.accepted
      rw [hentry]
      exact hconsumes.noteGap handler (f.header ids)
  · exact h

/-- **Step.** -/
theorem step (h : s.Flows i e l n b pub) {a : FlowAction ids.termLength} (hclear : s.Clear i a) :
    ∃ e' l' n' b' pub', (s.step i a).Flows i e' l' n' b' pub' := by
  cases a with
  | sender a => exact h.sender hclear
  | setup handler header source => exact ⟨e, l, n, b, pub, h.setup hclear⟩
  | data handler f => exact ⟨e, l, n, b, pub, h.data hclear⟩

/-- What the image has accepted of the frames emitted is covered by its consumption position. -/
theorem covered (h : s.Flows i e l n b pub) {r : ImageRun ids} {A : Nat}
    (hholds : Holds ids r.state.entry r.state.image.inner A r.accepted)
    (hconsumes : Consumes ids r.state.entry A r.accepted)
    (haccepted : ∀ bytes ∈ (s.sender.emissions i).filterMap Emission.dataBytes,
      ∃ f ∈ r.accepted, f.bytes ids = bytes) {record : LogRecord} (hsent : record ∈ l.sent)
    (hdata : record.isData = true) :
    record.start + record.length ≤
      A * ids.termLength + r.state.entry.consumptionTermOffset.toNat := by
  obtain ⟨frames, hframes, hterms⟩ := h.streams.sent_frames
  have hmem : record ∈ frames.map StreamFrame.record := by
    rw [hframes]
    exact List.mem_filter.mpr ⟨hsent, hdata⟩
  obtain ⟨g, hg, rfl⟩ := List.mem_map.mp hmem
  obtain ⟨f, hf, hbytes⟩ := haccepted (g.bytes ids) (by
    rw [h.allEmitted, h.streams.data, ← hframes, List.map_map]
    exact List.mem_map_of_mem hg)
  -- the header gives the position, the size the length
  have hle : ids.termLength ≤ 2 ^ 31 := Nat.le_trans hholds.termLength_le (by norm_num)
  have hstart : f.start = g.start := by
    rw [← framePosition_bytes hholds.termLength_pos hle (hterms g hg), ← hbytes]
    refine (framePosition_bytes hholds.termLength_pos hle ?_).symm
    exact Nat.lt_of_le_of_lt (hholds.term_le f hf) hholds.active_lt
  have hlength : f.length = g.length := by
    have hsize := congrArg List.length hbytes
    rw [f.bytes_length, g.bytes_length] at hsize
    unfold StreamFrame.length
    rw [hsize]
  have hcovers := hconsumes.covers f hf
  unfold StreamFrame.stop at hcovers
  rw [hstart, hlength] at hcovers
  exact hcovers

/-- The limit is half a term past the consumption position of which the agent was told. -/
theorem limit_ge (h : s.Flows i e l n b pub) {r : ImageRun ids} {A : Nat}
    (hholds : Holds ids r.state.entry r.state.image.inner A r.accepted)
    (hconsumes : Consumes ids r.state.entry A r.accepted) {sm : StatusMessage}
    (hsm : sm ∈ s.applied) (hcurrent : sm = (r.state.entry.statusMessage sm.receiverId).frame) :
    ((A * ids.termLength + r.state.entry.consumptionTermOffset.toNat : Nat) : Int) +
      (ids.termLength : Int) / 2 ≤ e.senderLimit := by
  have hproposed : SenderRun.proposedLimit ids sm =
      ((A * ids.termLength + r.state.entry.consumptionTermOffset.toNat : Nat) : Int) +
        (ids.termLength : Int) / 2 := by
    have hactive := hholds.active_lt
    rw [hcurrent]
    change (r.state.entry.consumptionTermId - ids.initialTermId).toInt * _ + _ +
      r.state.entry.receiverWindow.toInt = _
    rw [hconsumes.term, hconsumes.window, BitVec.add_comm, BitVec.add_sub_cancel,
      toInt_ofNat_of_lt hactive]
    push_cast
    rfl
  have hT := hholds.termLength_le
  have hoffset := hconsumes.offset_le
  have hmul := Nat.mul_le_mul (Nat.le_of_lt hholds.active_lt) hT
  rw [← hproposed]
  refine h.granted sm hsm ?_ ?_ (by omega) (by omega)
  · rw [hcurrent]
    exact hconsumes.stream.1
  · rw [hcurrent]
    exact hconsumes.stream.2

/-- **When nothing is in flight the window is open.** -/
theorem isOpen (h : s.Flows i e l n b pub) (hquiet : s.Quiet i) : s.Open i := by
  obtain ⟨r, hr, haccepted, sm, hsm, hcurrent⟩ := hquiet
  obtain ⟨A, hholds, hconsumes⟩ := h.image r hr
  have hlimit := h.limit_ge hholds hconsumes hsm hcurrent
  have hT := hholds.termLength_pos
  have hdvd := hholds.termLength_dvd
  have hrange := h.streams.inv.inRange e (List.mem_of_getElem? h.streams.entry)
  have hsender : e.senderPosition = b := h.streams.represents.sender
  -- the sender is less than half a term past what the image has accepted
  have hahead : e.senderPosition < e.senderLimit := by
    have htiles := h.streams.represents.tiles_sent
    rw [h.streams.termLength_eq] at htiles
    rcases htiles.near_data hT fun r hr => h.latePads r (List.mem_append_left _ hr) with
      hnil | ⟨record, hsent, hdata, hnear⟩
    · rw [hnil] at htiles
      obtain rfl : 0 = b := htiles
      omega
    · have hcovered := h.covered hholds hconsumes haccepted hsent hdata
      omega
  intro e' he' hwaiting
  obtain rfl := Option.some.inj (h.streams.entry.symm.trans he')
  obtain ⟨h₁, h₂, h₃, h₄⟩ := hrange
  have hpub : e.pubPosition = pub := h.streams.represents.pub
  have hn := h.streams.represents.termCount_lt
  have hoff := h.streams.represents.offset_le
  have hle := h.streams.represents.le
  have hmul := Nat.mul_le_mul (Nat.le_of_lt hn)
    (show e.publication.toNetwork.termLength ≤ 2 ^ 31 from
      e.publication.toNetwork.rawLog.termLength_le)
  have hlen := e.publication.toNetwork.rawLog.termLength_le
  have hoff' : e.publication.toNetwork.termOffset ≤ 2 ^ 31 := Nat.le_trans hoff hlen
  have hwindow : wrapI64 (e.senderLimit - e.senderPosition) = e.senderLimit - e.senderPosition :=
    wrapI64_of_range (by omega) (by omega)
  have hdata : wrapI64 (e.pubPosition - e.senderPosition) = e.pubPosition - e.senderPosition :=
    wrapI64_of_range (by omega) (by omega)
  refine ⟨by omega, ?_⟩
  unfold PublicationEntry.available
  dsimp only
  rw [hwindow, hdata]
  split_ifs <;> omega

end Flows

/-- **Flow control does not wedge**: in every run of a new publication, its sender agent and the
image of a receiver with the default window, in which rotations are clear of the sender and leave
less than half of a term to a pad and the send slots cover every scan, the window is open whenever
nothing is in flight. Frames may arrive in any order and more than once. -/
theorem window_open_when_quiet {agent : SenderAgent} (h : agent.Initial) {i : Nat}
    {e : PublicationEntry} (he : agent.publications[i]? = some e)
    (as : List (FlowAction e.publication.toNetwork.ids.termLength))
    (hrun : Meets (Clear i) (step i) (start e.publication.toNetwork.ids agent) as) :
    (run (step i) (start e.publication.toNetwork.ids agent) as).Quiet i →
      (run (step i) (start e.publication.toNetwork.ids agent) as).Open i := by
  have hinv := @run_invariant _ _ (Clear i) (step i)
    (fun s => ∃ e' l n b pub, s.Flows i e' l n b pub)
    (fun s a hs hclear => by
      obtain ⟨e', l, n, b, pub, hflows⟩ := hs
      exact hflows.step hclear)
    _ ⟨e, _, 0, 0, 0, SenderRun.streams_start h he, by simp, by simp [start, SenderRun.start,
      SenderRun.attempts, attemptsOf], SenderRun.allEmitted_start i agent,
      by simp [SenderRun.Granted, start], by simp [start]⟩ as hrun
  obtain ⟨e', l, n, b, pub, hflows⟩ := hinv
  exact hflows.isOpen

/-- The image that the first setup frame of the one new publication creates. -/
def firstArrival : FlowAction 128 := .setup ImageRun.quietHandler (SenderRun.firstSetup 0) ⟨2, []⟩

def frameAt (start : Nat) (payload : List UInt8) (aligned : 32 ∣ start)
    (inTerm : start % 128 + alignFrameLength (32 + payload.length) ≤ 128) : FlowAction 128 :=
  .data ImageRun.quietHandler ⟨start, payload, aligned, inTerm⟩

/-- The status message of the image that the first setup frame creates, at an offset of the first
term. -/
def statusAt (offset : BitVec 32) : FlowAction 128 :=
  .sender (.statusMessage ⟨⟨BitVec.ofNat 32 smTotalLength, currentVersion, 0, frameTypeSm⟩, 7, 1, 5,
    offset, 64, 1⟩)

/-- A frame of 96 bytes is sent and arrives, and one that does not fit behind it is offered. The pad
of 32 bytes is scanned, and the window is open for the frame after it. -/
def lateRotation : List (FlowAction 128) :=
  [.sender (.doSend 1000), firstArrival, .sender (.offer 0 (List.replicate 64 1)),
    .sender (.doSend 1001), frameAt 0 (List.replicate 64 1) (by decide) (by decide),
    .sender (.offer 0 (List.replicate 64 2)), .sender (.offer 0 (List.replicate 64 2)),
    .sender (.poller SenderAgent.oneNewPublication.poller), .sender (.doSend 1002), statusAt 96]

theorem window_open_late_rotation :
    (run (step 0) (start ⟨5, 7, 1, 128⟩ SenderAgent.oneNewPublication) lateRotation).Open 0 :=
  window_open_when_quiet SenderAgent.oneNewPublication_initial (i := 0) rfl lateRotation
    (show Meets (Clear 0) (step 0) (start ⟨5, 7, 1, 128⟩ SenderAgent.oneNewPublication)
      lateRotation by decide +kernel)
    (show (run (step 0) (start ⟨5, 7, 1, 128⟩ SenderAgent.oneNewPublication) lateRotation).Quiet 0
      by decide +kernel)

/-- **Flow control wedges.** A frame of 32 bytes is sent and arrives, and one of 128 bytes is offered
twice: the first offer rotates and fills the 96 bytes left with a pad, the second publishes the frame
at 128. A cycle scans the pad and moves the sender to 128. The status message for all that was sent,
32 bytes, proposes the limit 96, while the limit is 128. -/
theorem window_closed_by_pad :
    let s := run (step 0) (start ⟨5, 7, 1, 128⟩ SenderAgent.oneNewPublication)
      [.sender (.doSend 1000), firstArrival, .sender (.offer 0 []), .sender (.doSend 1001),
        frameAt 0 [] (by decide) (by decide), .sender (.offer 0 (List.replicate 96 2)),
        .sender (.offer 0 (List.replicate 96 2)),
        .sender (.poller SenderAgent.oneNewPublication.poller), .sender (.doSend 1002), statusAt 32]
    s.Quiet 0 ∧ ¬ s.Open 0 ∧
      s.sender.agent.publications.map (fun e => (e.senderPosition, e.senderLimit, e.pubPosition)) =
        [(128, 128, 256)] := by
  decide +kernel

/-- A refused frame wedges the publication too: of the two frames of 64 bytes that the second cycle
scans, the poller has a slot for one. -/
example :
    let agent := { SenderAgent.oneNewPublication with
      poller := { SenderAgent.oneNewPublication.poller with pool := .new 4 } }
    let s := run (step 0) (start ⟨5, 7, 1, 128⟩ agent)
      [.sender (.doSend 1000), firstArrival, .sender (.offer 0 (List.replicate 32 1)),
        .sender (.offer 0 (List.replicate 32 2)), .sender (.doSend 1001),
        frameAt 0 (List.replicate 32 1) (by decide) (by decide), .sender (.offer 0 []),
        .sender (.offer 0 []), statusAt 64]
    s.Quiet 0 ∧ ¬ s.Open 0 := by
  decide +kernel

end FlowRun

end AeronRs
