import AeronRs.Media.SlotOwnership

/-! # Registering endpoints and dispatching datagrams

The sender and the receiver agent register an endpoint with their poller and then store it, through
`add_endpoint` or when they pick it up from a bridge. The poller numbers its transports, and a
received datagram carries the number of the transport whose receive request it completed. The agents
use it as an index into their endpoints: "`transport_idx` maps 1:1 to endpoint index".

`add_transport` stores the transport before it queues and submits the receive request. If one of
these fails the transport stays, the endpoint is not stored, and from then on every endpoint has a
transport number beyond its own index.

* **`KeepsRoutes`** — what the poller's other work leaves alone: the sockets of its transports, and
  that a receive request names the transport of its socket.
* **`Routed`** — every endpoint is where its transport is, and datagrams reach the owner of their
  socket.

`endpoints_routed_iff` says in which runs this holds. -/

namespace AeronRs

open Runs

variable {ε P : Type}

/-! ## Registration -/

/-- `UdpChannelTransport`: its sockets, and what the poller stores with them. -/
structure UdpChannelTransport where
  sendFd : Nat
  recvFd : Nat
  dispatchClientd : Nat
  destinationClientd : Nat
  pollerIndex : Option Nat
  deriving DecidableEq, Repr

/-- The entry of a transport in the poller, before its receive request is queued. -/
def UdpChannelTransport.entry (transport : UdpChannelTransport) : TransportEntry where
  recvFd := transport.recvFd
  sendFd := transport.sendFd
  dispatchClientd := transport.dispatchClientd
  destinationClientd := transport.destinationClientd
  multishotActive := false
  active := true

namespace UringPoller

/-- `ring.submit()`: the kernel takes the queue, or answers with an error and takes nothing. -/
def ringSubmit (p : UringPoller P) (submitErrno : Option Int) :
    (UringPoller P × List Sqe) × Except PollError Unit :=
  match submitErrno with
  | some errno => ((p, []), .error (.os errno))
  | none => (({ p with sq := [] }, p.sq), .ok ())

/-- `add_transport`: the poller with the entries that the kernel took, the transport, and its
number. The receive request is queued for the number as a 16-bit one. -/
def addTransport (p : UringPoller P) (transport : UdpChannelTransport) (submitErrno : Option Int) :
    (UringPoller P × List Sqe) × UdpChannelTransport × Except PollError Nat :=
  let idx := p.transports.length
  let p := { p with transports := p.transports ++ [transport.entry] }
  match p.submitMultishotRecv (idx % 2 ^ 16) with
  | (p, .error e) => ((p, []), transport, .error e)
  | (p, .ok ()) =>
      match p.ringSubmit submitErrno with
      | (r, .error e) => (r, transport, .error e)
      | (r, .ok ()) => (r, { transport with pollerIndex := some idx }, .ok idx)

end UringPoller

/-- `SendChannelEndpoint` and `ReceiveChannelEndpoint`: what registration reads and writes, and the
rest. -/
structure ChannelEndpoint (ε : Type) where
  transport : UdpChannelTransport
  transportIdx : Option Nat
  inner : ε
  deriving DecidableEq, Repr

def ChannelEndpoint.register (ep : ChannelEndpoint ε) (poller : UringPoller P)
    (submitErrno : Option Int) :
    (UringPoller P × List Sqe) × ChannelEndpoint ε × Except PollError Unit :=
  match poller.addTransport ep.transport submitErrno with
  | (r, transport, .error e) => (r, { ep with transport }, .error e)
  | (r, transport, .ok idx) => (r, { ep with transport, transportIdx := some idx }, .ok ())

/-- The receive request of a submission entry: its socket and user data. -/
def Sqe.receive? : Sqe → Option (Nat × Nat)
  | .recvMsgMulti fd userData => some (fd, userData)
  | .sendMsg .. => none

/-- The receive requests among submission entries. -/
def receives (sq : List Sqe) : List (Nat × Nat) := sq.filterMap Sqe.receive?

theorem receives_nil : receives [] = [] := rfl

/-- The endpoints and the poller of an agent, with the receive requests that the kernel has taken: a
datagram on a socket completes such a request with its user data. -/
structure EndpointAgent (ε P : Type) where
  poller : UringPoller P
  endpoints : List (ChannelEndpoint ε)
  armed : List (Nat × Nat)

namespace EndpointAgent

def addEndpoint (s : EndpointAgent ε P) (ep : ChannelEndpoint ε) (submitErrno : Option Int) :
    EndpointAgent ε P × Except PollError Nat :=
  match ep.register s.poller submitErrno with
  | ((poller, taken), _, .error e) =>
      ({ s with poller, armed := s.armed ++ receives taken }, .error e)
  | ((poller, taken), ep, .ok ()) =>
      ({ poller, armed := s.armed ++ receives taken, endpoints := s.endpoints ++ [ep] },
        .ok s.endpoints.length)

/-- `poll_publication_bridge` and `poll_recv_endpoint_bridge`, over what the occupied slots hold: an
endpoint that cannot be registered is skipped. The result counts the others. -/
def pollBridge : EndpointAgent ε P → List (ChannelEndpoint ε × Option Int) →
    EndpointAgent ε P × Nat
  | s, [] => (s, 0)
  | s, (ep, submitErrno) :: rest =>
      match s.addEndpoint ep submitErrno with
      | (s, .error _) => pollBridge s rest
      | (s, .ok _) => ((pollBridge s rest).1, (pollBridge s rest).2 + 1)

end EndpointAgent

/-- What happens to an agent's poller and endpoints: registrations, and the duty cycle's sends,
flushes and polls, before which the kernel posts completions. -/
inductive EndpointAction (ε P : Type)
  | addEndpoint (ep : ChannelEndpoint ε) (submitErrno : Option Int)
  | send (transportIdx : Nat) (data : P) (dest : Option SockAddr)
  | flush
  | poll (posted : List Cqe) (submitErrno : Option Int)

namespace EndpointAgent

def start (poller : UringPoller P) : EndpointAgent ε P := ⟨poller, [], []⟩

/-- The receive requests that the kernel takes when a poll submits the ring. -/
def takenByPoll (api : UringApi) (p : UringPoller P) (submitErrno : Option Int) :
    List (Nat × Nat) :=
  if (p.pollDispatch api).needsSubmit ∧ submitErrno = none then
    receives (p.pollDispatch api).poller.sq
  else []

def step (api : UringApi) (s : EndpointAgent ε P) : EndpointAction ε P → EndpointAgent ε P
  | .addEndpoint ep submitErrno => (s.addEndpoint ep submitErrno).1
  | .send transportIdx data dest =>
      { s with poller := (s.poller.submitSend transportIdx data dest).1 }
  | .flush =>
      { s with
        poller := (s.poller.flush fun _ => []).1
        armed := s.armed ++ receives s.poller.sq }
  | .poll posted submitErrno =>
      let p := { s.poller with cq := s.poller.cq ++ posted }
      { s with
        poller := (p.pollRecv api submitErrno).1
        armed := s.armed ++ takenByPoll api p submitErrno }

/-- Picking up endpoints from a bridge is registering them one after another. -/
theorem pollBridge_eq_run (api : UringApi) (s : EndpointAgent ε P)
    (taken : List (ChannelEndpoint ε × Option Int)) :
    (s.pollBridge taken).1 =
      run (step api) s (taken.map fun item => .addEndpoint item.1 item.2) := by
  induction taken generalizing s with
  | nil => rfl
  | cons item taken ih =>
      rw [pollBridge, List.map_cons, run_cons, step]
      rcases s.addEndpoint item.1 item.2 with ⟨s', e | idx⟩
      · exact ih s'
      · exact ih s'

end EndpointAgent

/-! ## What the poller's work leaves alone -/

/-- A receive request for a transport completes with its number. -/
theorem transportIdx_decode_encode {transportIdx : Nat} (h : transportIdx < 2 ^ 16) :
    (UserData.decode (UserData.encode ⟨transportIdx, opRecv, 0⟩)).transportIdx = transportIdx := by
  have hraw : UserData.encode ⟨transportIdx, opRecv, 0⟩ = transportIdx * 2 ^ 48 + 2 ^ 40 := by
    have hlow : 1 <<< 40 < 2 ^ 48 := by decide
    rw [UserData.encode, opRecv, Nat.zero_shiftLeft, Nat.or_zero,
      ← Nat.shiftLeft_add_eq_or_of_lt hlow, Nat.shiftLeft_eq, Nat.shiftLeft_eq, Nat.one_mul]
  rw [hraw]
  simp only [UserData.decode, Nat.shiftRight_eq_div_pow]
  omega

namespace UringPoller

/-- The sockets of a transport, and whether it is active. -/
def routeOf (entry : TransportEntry) : Nat × Nat × Bool :=
  (entry.recvFd, entry.sendFd, entry.active)

def routes (p : UringPoller P) : List (Nat × Nat × Bool) := p.transports.map routeOf

/-- A receive request names the transport of its socket. -/
def Routes (p : UringPoller P) (request : Nat × Nat) : Prop :=
  ∃ route, p.routes[(UserData.decode request.2).transportIdx]? = some route ∧ route.1 = request.1

/-- **What the poller's work leaves alone**: the sockets stay, and new receive requests name the
transport of their socket. -/
structure KeepsRoutes (p p' : UringPoller P) : Prop where
  routes_eq : p'.routes = p.routes
  requests : ∀ request ∈ receives p'.sq, request ∈ receives p.sq ∨ p.Routes request

theorem keepsRoutes_of_eq {p p' : UringPoller P} (htransports : p'.transports = p.transports)
    (hsq : p'.sq = p.sq) : KeepsRoutes p p' := by
  refine ⟨by rw [routes, htransports, routes], fun request hmem => .inl ?_⟩
  rwa [hsq] at hmem

theorem KeepsRoutes.trans {p p' p'' : UringPoller P} (h : KeepsRoutes p p')
    (h' : KeepsRoutes p' p'') : KeepsRoutes p p'' := by
  refine ⟨h'.routes_eq.trans h.routes_eq, fun request hmem => ?_⟩
  rcases h'.requests request hmem with hold | hnew
  · exact h.requests request hold
  · unfold Routes at hnew ⊢
    rw [h.routes_eq] at hnew
    exact .inr hnew

theorem routes_setMultishotActive (p : UringPoller P) (transportIdx : Nat) (active : Bool) :
    (p.setMultishotActive transportIdx active).routes = p.routes := by
  unfold routes setMultishotActive
  refine List.ext_getElem? fun i => ?_
  simp only [List.getElem?_map, List.getElem?_modify]
  split_ifs
  · cases p.transports[i]? <;> rfl
  · cases p.transports[i]? <;> rfl

/-- **Arming a receive** queues a request for the transport's own socket. -/
theorem submitMultishotRecv_keepsRoutes (p : UringPoller P) {transportIdx : Nat}
    (h : transportIdx < 2 ^ 16) : KeepsRoutes p (p.submitMultishotRecv transportIdx).1 := by
  unfold submitMultishotRecv
  split
  · exact keepsRoutes_of_eq rfl rfl
  · rename_i entry hentry
    split_ifs
    · exact keepsRoutes_of_eq rfl rfl
    · unfold push
      split_ifs
      · refine ⟨routes_setMultishotActive _ _ _, fun request hmem => ?_⟩
        have hsq : receives (p.sq ++ [.recvMsgMulti entry.recvFd
            (UserData.encode ⟨transportIdx, opRecv, 0⟩)]) = receives p.sq ++
              [(entry.recvFd, UserData.encode ⟨transportIdx, opRecv, 0⟩)] := List.filterMap_append
        rcases List.mem_append.mp (hsq ▸ hmem) with hold | hnew
        · exact .inl hold
        · rw [List.mem_singleton.mp hnew]
          refine .inr ⟨routeOf entry, ?_, rfl⟩
          rw [transportIdx_decode_encode h, routes, List.getElem?_map, hentry]
          rfl
      · exact keepsRoutes_of_eq rfl rfl

theorem submitSend_keepsRoutes (p : UringPoller P) (transportIdx : Nat) (data : P)
    (dest : Option SockAddr) : KeepsRoutes p (p.submitSend transportIdx data dest).1 := by
  rcases p.submitSend_cases transportIdx data dest with
    ⟨-, heq⟩ | ⟨slotIdx, rest, -, ⟨-, heq⟩ | ⟨-, -, heq⟩ | ⟨-, -, fd, heq⟩⟩
  · rw [heq]
    exact keepsRoutes_of_eq rfl rfl
  · rw [heq]
    exact keepsRoutes_of_eq rfl rfl
  · rw [heq]
    exact keepsRoutes_of_eq rfl rfl
  · rw [heq]
    refine ⟨rfl, fun request hmem => .inl ?_⟩
    have hsq : receives (p.sq ++ [.sendMsg fd slotIdx
        (UserData.encode ⟨transportIdx % 2 ^ 16, opSend, slotIdx⟩)]) = receives p.sq ++ [] :=
      List.filterMap_append
    rw [List.append_nil] at hsq
    exact hsq ▸ hmem

end UringPoller

namespace PollState

open UringPoller

theorem consume_keepsRoutes (api : UringApi) (st : PollState P) (transportIdx : Nat) (cqe : Cqe)
    (active : Option TransportEntry) :
    KeepsRoutes st.poller (st.consume api transportIdx cqe active).poller := by
  unfold consume
  cases api.bufferSelect cqe.flags with
  | none =>
      dsimp only
      split_ifs
      · rw [(st.countRecvError_eq cqe.result).1]
        exact keepsRoutes_of_eq rfl rfl
      · exact keepsRoutes_of_eq rfl rfl
  | some bufId =>
      have hreceive := (st.receive_eq api transportIdx bufId cqe.result active).1
      have hreturn : KeepsRoutes (st.receive api transportIdx bufId cqe.result active).poller
          ((st.receive api transportIdx bufId cqe.result active).returnBuf bufId).poller :=
        keepsRoutes_of_eq rfl rfl
      rw [hreceive] at hreturn
      exact hreturn

/-- The message of a received buffer carries the number it was received under. -/
theorem receive_callback {api : UringApi} {st : PollState P} {transportIdx bufId : Nat} {ret : Int}
    {active : Option TransportEntry} {msg : RecvMessage}
    (h : .callback msg ∈ (st.receive api transportIdx bufId ret active).events) :
    .callback msg ∈ st.events ∨ msg.transportIdx = transportIdx := by
  have herror (hmem : .callback msg ∈ (st.countRecvError ret).events) :
      .callback msg ∈ st.events := by
    rwa [(st.countRecvError_eq ret).2.1] at hmem
  unfold receive at h
  cases active with
  | none =>
      dsimp only at h
      split_ifs at h
      · exact .inl (herror h)
      · exact .inl h
  | some entry =>
      dsimp only at h
      split_ifs at h
      · unfold deliver at h
        split at h
        · exact .inl h
        · rcases List.mem_append.mp h with hin | hnew
          · exact .inl hin
          · obtain rfl := PollEvent.callback.inj (List.mem_singleton.mp hnew)
            exact .inr rfl
      · exact .inl (herror h)
      · exact .inl h

theorem dispatch_keepsRoutes (api : UringApi) (st : PollState P) (cqe : Cqe) :
    KeepsRoutes st.poller (st.dispatch api cqe).poller := by
  unfold dispatch
  dsimp only
  split_ifs
  · rw [dispatchRecv]
    have hconsume := st.consume_keepsRoutes api (UserData.decode cqe.userData).transportIdx cqe
      (st.activeTransport (UserData.decode cqe.userData).transportIdx)
    split_ifs
    · -- the request that has ended is queued again, for the same transport
      refine hconsume.trans (.trans ?_ (submitMultishotRecv_keepsRoutes _
        (Nat.mod_lt _ (by decide))))
      refine ⟨routes_setMultishotActive _ _ _, fun request hmem => .inl hmem⟩
    · exact hconsume
  · exact keepsRoutes_of_eq rfl rfl
  · exact keepsRoutes_of_eq rfl rfl

theorem foldl_dispatch_keepsRoutes (api : UringApi) (batch : List Cqe) (st : PollState P) :
    KeepsRoutes st.poller (batch.foldl (dispatch api) st).poller := by
  induction batch generalizing st with
  | nil => exact keepsRoutes_of_eq rfl rfl
  | cons cqe batch ih => exact (st.dispatch_keepsRoutes api cqe).trans (ih _)

/-- A receive hands over a message of its own transport, or none. -/
theorem consume_callback {api : UringApi} {st : PollState P} {cqe : Cqe} {msg : RecvMessage}
    {transportIdx : Nat} {active : Option TransportEntry}
    (h : .callback msg ∈ (st.consume api transportIdx cqe active).events) :
    .callback msg ∈ st.events ∨ msg.transportIdx = transportIdx := by
  unfold consume at h
  cases hbuf : api.bufferSelect cqe.flags with
  | none =>
      -- no buffer was selected: at most an error is counted
      simp only [hbuf] at h
      split_ifs at h
      · rw [(st.countRecvError_eq cqe.result).2.1] at h
        exact .inl h
      · exact .inl h
  | some bufId =>
      simp only [hbuf, returnBuf] at h
      rcases List.mem_append.mp h with hin | hreturned
      · exact receive_callback hin
      · split_ifs at hreturned
        · cases hreturned
        · cases List.mem_singleton.mp hreturned

/-- **The message of a completion** carries the number of the transport whose request completed. -/
theorem dispatch_callback {api : UringApi} {st : PollState P} {cqe : Cqe} {msg : RecvMessage}
    (h : .callback msg ∈ (st.dispatch api cqe).events) :
    .callback msg ∈ st.events ∨
      msg.transportIdx = (UserData.decode cqe.userData).transportIdx := by
  unfold dispatch at h
  dsimp only at h
  split_ifs at h
  · rw [dispatchRecv] at h
    split_ifs at h
    · exact consume_callback h
    · exact consume_callback h
  · rcases List.mem_append.mp h with hin | hfreed
    · exact .inl hin
    · cases List.mem_singleton.mp hfreed
  · exact .inl h

/-- What follows the dispatch loop touches neither the transports nor the queue. -/
theorem settle_transports (st : PollState P) :
    st.settle.transports = st.poller.transports ∧ st.settle.sq = st.poller.sq := by
  have hrecover (p : UringPoller P) : p.recoverLeakedSendSlots.transports = p.transports ∧
      p.recoverLeakedSendSlots.sq = p.sq := by
    unfold recoverLeakedSendSlots
    generalize List.range p.pool.sendSlots.length = slots
    induction slots generalizing p with
    | nil => exact ⟨rfl, rfl⟩
    | cons i slots ih =>
        rw [List.foldl_cons]
        split_ifs
        · exact ih { p with pool := p.pool.freeSend i }
        · exact ih p
  unfold settle
  dsimp only
  split_ifs
  · exact hrecover { st.poller with bufRing := st.poller.bufRing.publishTail }
  · exact hrecover st.poller
  · exact ⟨rfl, rfl⟩
  · exact ⟨rfl, rfl⟩

end PollState

/-! ## Every endpoint where its transport is -/

namespace EndpointAgent

open UringPoller

/-- A registration that finds room in the submission queue and no error at its submission. -/
def Registers (s : EndpointAgent ε P) (submitErrno : Option Int) : Prop :=
  s.poller.sq.length < s.poller.sqEntries ∧ submitErrno = none

instance (s : EndpointAgent ε P) (submitErrno : Option Int) : Decidable (s.Registers submitErrno) :=
  inferInstanceAs (Decidable (_ ∧ _))

def registered (ep : ChannelEndpoint ε) (idx : Nat) : ChannelEndpoint ε :=
  { ep with transport := { ep.transport with pollerIndex := some idx }, transportIdx := some idx }

/-- All transports are active: none is ever removed. -/
def AllActive (p : UringPoller P) : Prop := ∀ route ∈ p.routes, route.2.2 = true

theorem AllActive.concat {p p' : UringPoller P} (h : AllActive p) {recvFd sendFd : Nat}
    (hroutes : p'.routes = p.routes ++ [(recvFd, sendFd, true)]) : AllActive p' := by
  intro route hmem
  rw [hroutes] at hmem
  rcases List.mem_append.mp hmem with hold | hnew
  · exact h route hold
  · rw [List.mem_singleton.mp hnew]

/-- A receive request is queued for an active transport if there is room. -/
theorem submitMultishotRecv_result {p : UringPoller P} {transportIdx : Nat}
    (hactive : AllActive p) (hidx : transportIdx < p.transports.length) :
    (p.submitMultishotRecv transportIdx).2 =
      if p.sq.length < p.sqEntries then .ok () else .error .ringFull := by
  have hentry := List.getElem?_eq_getElem hidx
  have hon : p.transports[transportIdx].active = true :=
    hactive _ (List.mem_map_of_mem (List.getElem_mem hidx))
  unfold submitMultishotRecv
  simp only [hentry, hon, Bool.true_eq_false, if_false, push]
  split_ifs <;> rfl

/-- **What a registration does.** The transport is stored in any case, the endpoint only after a
success, under the number of its transport. -/
theorem addEndpoint_spec (s : EndpointAgent ε P) (hactive : AllActive s.poller)
    (ep : ChannelEndpoint ε) (submitErrno : Option Int) :
    (s.addEndpoint ep submitErrno).1.poller.routes =
        s.poller.routes ++ [(ep.transport.recvFd, ep.transport.sendFd, true)] ∧
      (∀ request ∈ (s.addEndpoint ep submitErrno).1.armed ++
          receives (s.addEndpoint ep submitErrno).1.poller.sq,
        request ∈ s.armed ++ receives s.poller.sq ∨
          (s.addEndpoint ep submitErrno).1.poller.Routes request) ∧
      (s.addEndpoint ep submitErrno).1.endpoints =
        if s.Registers submitErrno then
          s.endpoints ++ [registered ep s.poller.transports.length]
        else s.endpoints := by
  set p₁ := { s.poller with transports := s.poller.transports ++ [ep.transport.entry] } with hp₁
  have hroutes : p₁.routes =
      s.poller.routes ++ [(ep.transport.recvFd, ep.transport.sendFd, true)] := List.map_append
  have hidx : s.poller.transports.length % 2 ^ 16 < p₁.transports.length := by
    have hle := Nat.mod_le s.poller.transports.length (2 ^ 16)
    rw [hp₁, List.length_append]
    exact Nat.lt_succ_of_le hle
  have hresult := submitMultishotRecv_result (hactive.concat hroutes) hidx
  obtain ⟨hkeeps, hrequests⟩ := p₁.submitMultishotRecv_keepsRoutes
    (Nat.mod_lt s.poller.transports.length (show 0 < 2 ^ 16 by decide))
  rcases hsub : p₁.submitMultishotRecv (s.poller.transports.length % 2 ^ 16) with ⟨p₂, result⟩
  rw [hsub] at hkeeps hrequests hresult
  have hroutes₂ : p₂.routes =
      s.poller.routes ++ [(ep.transport.recvFd, ep.transport.sendFd, true)] := hkeeps.trans hroutes
  -- a request is old or names the transport of its socket, wherever it is now
  have hold : ∀ request ∈ s.armed ++ receives p₂.sq,
      request ∈ s.armed ++ receives s.poller.sq ∨
        ∃ route, p₂.routes[(UserData.decode request.2).transportIdx]? = some route ∧
          route.1 = request.1 := by
    intro request hmem
    rcases List.mem_append.mp hmem with harmed | hqueued
    · exact .inl (List.mem_append_left _ harmed)
    · rcases hrequests request hqueued with hin | hnew
      · exact .inl (List.mem_append_right _ hin)
      · rw [Routes, ← hkeeps] at hnew
        exact .inr hnew
  by_cases hroom : s.poller.sq.length < s.poller.sqEntries
  · obtain rfl : result = .ok () := hresult.trans (if_pos hroom)
    cases submitErrno with
    | none =>
        have hadd : (s.addEndpoint ep none).1 =
            { poller := { p₂ with sq := [] }
              endpoints := s.endpoints ++ [registered ep s.poller.transports.length]
              armed := s.armed ++ receives p₂.sq } := by
          simp only [addEndpoint, ChannelEndpoint.register, addTransport, ← hp₁, hsub, ringSubmit]
          rfl
        rw [hadd, if_pos ⟨hroom, rfl⟩]
        refine ⟨hroutes₂, fun request hmem => hold request ?_, rfl⟩
        rwa [receives_nil, List.append_nil] at hmem
    | some errno =>
        have hadd : (s.addEndpoint ep (some errno)).1 =
            { s with poller := p₂, armed := s.armed ++ receives [] } := by
          simp only [addEndpoint, ChannelEndpoint.register, addTransport, ← hp₁, hsub, ringSubmit]
        rw [hadd, if_neg fun h => nomatch h.2]
        refine ⟨hroutes₂, fun request hmem => hold request ?_, rfl⟩
        rwa [receives_nil, List.append_nil] at hmem
  · obtain rfl : result = .error .ringFull := hresult.trans (if_neg hroom)
    have hadd : (s.addEndpoint ep submitErrno).1 =
        { s with poller := p₂, armed := s.armed ++ receives [] } := by
      simp only [addEndpoint, ChannelEndpoint.register, addTransport, ← hp₁, hsub]
    rw [hadd, if_neg fun h => hroom h.1]
    refine ⟨hroutes₂, fun request hmem => hold request ?_, rfl⟩
    rwa [receives_nil, List.append_nil] at hmem

/-- **What the duty cycle does**: sends, flushes and polls leave the endpoints and the sockets of
the transports alone, and every new receive request names the transport of its socket. -/
structure Serves (s s' : EndpointAgent ε P) : Prop where
  endpoints : s'.endpoints = s.endpoints
  routes : s'.poller.routes = s.poller.routes
  requests : ∀ request ∈ s'.armed ++ receives s'.poller.sq,
    request ∈ s.armed ++ receives s.poller.sq ∨ s.poller.Routes request

/-- The kernel takes part of the queue, after work that keeps the routes. -/
theorem serves_of_keepsRoutes {s : EndpointAgent ε P} {p p' : UringPoller P}
    {taken : List (Nat × Nat)} (h : KeepsRoutes s.poller p) (hroutes : p'.routes = p.routes)
    (hqueue : taken ++ receives p'.sq ⊆ receives p.sq) :
    Serves s { s with poller := p', armed := s.armed ++ taken } := by
  refine ⟨rfl, hroutes.trans h.routes_eq, fun request hmem => ?_⟩
  rw [List.append_assoc] at hmem
  rcases List.mem_append.mp hmem with harmed | hqueued
  · exact .inl (List.mem_append_left _ harmed)
  · rcases h.requests request (hqueue hqueued) with hold | hnew
    · exact .inl (List.mem_append_right _ hold)
    · exact .inr hnew

theorem serves_send (api : UringApi) (s : EndpointAgent ε P) (transportIdx : Nat) (data : P)
    (dest : Option SockAddr) : Serves s (s.step api (.send transportIdx data dest)) := by
  have h := serves_of_keepsRoutes (s.poller.submitSend_keepsRoutes transportIdx data dest) rfl
    (show [] ++ receives _ ⊆ _ from List.Subset.refl _)
  rwa [List.append_nil] at h

theorem serves_flush (api : UringApi) (s : EndpointAgent ε P) : Serves s (s.step api .flush) := by
  have hrefl : KeepsRoutes s.poller s.poller := keepsRoutes_of_eq rfl rfl
  refine serves_of_keepsRoutes hrefl rfl ?_
  show receives s.poller.sq ++ [] ⊆ receives s.poller.sq
  rw [List.append_nil]
  exact List.Subset.refl _

theorem serves_poll (api : UringApi) (s : EndpointAgent ε P) (posted : List Cqe)
    (submitErrno : Option Int) : Serves s (s.step api (.poll posted submitErrno)) := by
  set p := { s.poller with cq := s.poller.cq ++ posted } with hp
  have hharvest : KeepsRoutes s.poller { p with cq := (harvest p.cq 0).2 } :=
    keepsRoutes_of_eq rfl rfl
  have hdispatch : KeepsRoutes s.poller (p.pollDispatch api).poller :=
    hharvest.trans (PollState.foldl_dispatch_keepsRoutes api (harvest p.cq 0).1
      ⟨{ p with cq := (harvest p.cq 0).2 }, ⟨0, 0, 0, 0, 0, 0, p.overflow⟩, false, false, []⟩)
  obtain ⟨htransports, hsq⟩ := (p.pollDispatch api).settle_transports
  have hroutes : (p.pollDispatch api).settle.routes = (p.pollDispatch api).poller.routes :=
    congrArg (List.map routeOf) htransports
  -- the ring is submitted if a request was queued again and the kernel has no objection
  show Serves s { s with
    poller := (p.pollRecv api submitErrno).1
    armed := s.armed ++ takenByPoll api p submitErrno }
  unfold takenByPoll pollRecv
  dsimp only
  by_cases hsubmit : (p.pollDispatch api).needsSubmit = true
  · cases submitErrno with
    | none =>
        rw [if_pos hsubmit, if_pos ⟨hsubmit, rfl⟩]
        refine serves_of_keepsRoutes hdispatch hroutes ?_
        show receives (p.pollDispatch api).poller.sq ++ [] ⊆ _
        rw [List.append_nil]
        exact List.Subset.refl _
    | some errno =>
        rw [if_pos hsubmit, if_neg fun h => nomatch h.2]
        refine serves_of_keepsRoutes hdispatch hroutes ?_
        rw [hsq]
        exact List.Subset.refl _
  · rw [if_neg hsubmit, if_neg fun h => hsubmit h.1]
    refine serves_of_keepsRoutes hdispatch hroutes ?_
    rw [hsq]
    exact List.Subset.refl _

/-! ## Runs -/

/-- **Every endpoint is where its transport is**: it has its own index as transport number, and the
poller's transport of that number has its sockets. -/
structure Aligned (s : EndpointAgent ε P) : Prop where
  index : ∀ {i : Nat} {ep : ChannelEndpoint ε}, s.endpoints[i]? = some ep → ep.transportIdx = some i
  socket : ∀ {i : Nat} {ep : ChannelEndpoint ε}, s.endpoints[i]? = some ep →
    s.poller.routes[i]? = some (ep.transport.recvFd, ep.transport.sendFd, true)

/-- The endpoint that `poll_control` and `poll_data` give a message to. -/
def target (s : EndpointAgent ε P) (msg : RecvMessage) : Option (ChannelEndpoint ε) :=
  s.endpoints[msg.transportIdx]?

/-- **Datagrams reach the owner of their socket.** A datagram on the socket of an endpoint completes
a request for that socket; whatever a poll has done before, the message that it makes of the
completion is given to that endpoint. -/
def Dispatches (api : UringApi) (s : EndpointAgent ε P) : Prop :=
  ∀ request ∈ s.armed, ∀ ep ∈ s.endpoints, ep.transport.recvFd = request.1 →
    ∀ (st : PollState P) (cqe : Cqe) (msg : RecvMessage), cqe.userData = request.2 →
      .callback msg ∈ (st.dispatch api cqe).events →
        .callback msg ∈ st.events ∨ s.target msg = some ep

/-- Every endpoint is where its transport is, and datagrams reach the owner of their socket. -/
def Routed (api : UringApi) (s : EndpointAgent ε P) : Prop := s.Aligned ∧ s.Dispatches api

/-- What the kernel guarantees: the sockets of the stored endpoints are open, and a socket that is
opened meanwhile has another descriptor. -/
def OpensUnused (s : EndpointAgent ε P) : EndpointAction ε P → Prop
  | .addEndpoint ep _ => ∀ other ∈ s.endpoints, other.transport.recvFd ≠ ep.transport.recvFd
  | _ => True

/-- The condition on a step: a registration that succeeds finds as many transports as endpoints. -/
def InStep (s : EndpointAgent ε P) : EndpointAction ε P → Prop
  | .addEndpoint _ submitErrno =>
      s.Registers submitErrno → s.poller.transports.length = s.endpoints.length
  | _ => True

instance (s : EndpointAgent ε P) : (a : EndpointAction ε P) → Decidable (s.OpensUnused a)
  | .addEndpoint _ _ =>
      inferInstanceAs (Decidable (∀ other ∈ s.endpoints, other.transport.recvFd ≠ _))
  | .send .. | .flush | .poll .. => isTrue trivial

instance (s : EndpointAgent ε P) : (a : EndpointAction ε P) → Decidable (s.InStep a)
  | .addEndpoint _ _ => inferInstanceAs (Decidable (_ → _))
  | .send .. | .flush | .poll .. => isTrue trivial

/-- The run invariant. No other transport has the socket of a stored endpoint. -/
structure Inv (s : EndpointAgent ε P) : Prop extends s.Aligned where
  active : AllActive s.poller
  requests : ∀ request ∈ s.armed ++ receives s.poller.sq, s.poller.Routes request
  sole : ∀ {t i : Nat} {route : Nat × Nat × Bool} {ep : ChannelEndpoint ε},
    s.poller.routes[t]? = some route → s.endpoints[i]? = some ep →
    route.1 = ep.transport.recvFd → t = i

theorem Inv.routed {s : EndpointAgent ε P} (h : s.Inv) (api : UringApi) : s.Routed api := by
  refine ⟨h.toAligned, fun request hmem ep hep hfd st cqe msg hud hcallback => ?_⟩
  obtain ⟨i, hi⟩ := List.getElem?_of_mem hep
  -- the request names a transport with the socket of the endpoint, so the one at its index
  obtain ⟨route, hroute, hsocket⟩ := h.requests request (List.mem_append_left _ hmem)
  have hindex := h.sole hroute hi (hsocket.trans hfd.symm)
  rcases PollState.dispatch_callback hcallback with hbefore | hnumber
  · exact .inl hbefore
  · right
    rw [target, hnumber, hud, hindex]
    exact hi

theorem inv_start {p : UringPoller P} (htransports : p.transports = []) (hsq : p.sq = []) :
    (start p : EndpointAgent ε P).Inv := by
  have hroutes : p.routes = [] := by rw [routes, htransports, List.map_nil]
  refine ⟨⟨nofun, nofun⟩, fun route hmem => ?_, fun request hmem => ?_, fun _ hep => nomatch hep⟩
  · rw [show (start p : EndpointAgent ε P).poller.routes = [] from hroutes] at hmem
    exact absurd hmem List.not_mem_nil
  · have hnil : (start p : EndpointAgent ε P).armed ++
        receives (start p : EndpointAgent ε P).poller.sq = [] := congrArg receives hsq
    rw [hnil] at hmem
    exact absurd hmem List.not_mem_nil

/-- The duty cycle keeps the invariant. -/
theorem Inv.serves {s s' : EndpointAgent ε P} (h : s.Inv) (hserves : Serves s s') : s'.Inv := by
  have hroutes := hserves.routes
  have hendpoints := hserves.endpoints
  refine ⟨⟨fun hep => ?_, fun hep => ?_⟩, ?_, fun request hmem => ?_, fun hroute hep => ?_⟩
  · exact h.index (hendpoints ▸ hep)
  · rw [hroutes]
    exact h.socket (hendpoints ▸ hep)
  · unfold AllActive
    rw [hroutes]
    exact h.active
  · unfold Routes
    rw [hroutes]
    rcases hserves.requests request hmem with hold | hnew
    · exact h.requests request hold
    · exact hnew
  · exact h.sole (hroutes ▸ hroute) (hendpoints ▸ hep)

theorem getElem?_concat {α : Type} {l : List α} {x y : α} {i : Nat}
    (h : (l ++ [x])[i]? = some y) : l[i]? = some y ∨ i = l.length ∧ y = x := by
  rcases Nat.lt_trichotomy i l.length with hlt | heq | hgt
  · rw [List.getElem?_append_left hlt] at h
    exact .inl h
  · rw [heq, List.getElem?_concat_length] at h
    exact .inr ⟨heq, (Option.some.inj h).symm⟩
  · rw [List.getElem?_eq_none (by rw [List.length_append, List.length_singleton]; omega)] at h
    cases h

/-- A list with one more element holds what it held. -/
theorem getElem?_concat_of_some {α : Type} {l : List α} {y : α} {i : Nat} (h : l[i]? = some y)
    (x : α) : (l ++ [x])[i]? = some y := by
  obtain ⟨hlt, -⟩ := List.getElem?_eq_some_iff.mp h
  rw [List.getElem?_append_left hlt]
  exact h

/-- **A registration in step** keeps the invariant, whether it succeeds or fails. -/
theorem Inv.addEndpoint {s : EndpointAgent ε P} (h : s.Inv) {ep : ChannelEndpoint ε}
    {submitErrno : Option Int}
    (hopen : ∀ other ∈ s.endpoints, other.transport.recvFd ≠ ep.transport.recvFd)
    (hstep : s.Registers submitErrno → s.poller.transports.length = s.endpoints.length) :
    (s.addEndpoint ep submitErrno).1.Inv := by
  obtain ⟨hroutes, hrequests, hendpoints⟩ := s.addEndpoint_spec h.active ep submitErrno
  have hlength : s.poller.routes.length = s.poller.transports.length := List.length_map _
  have hactive := h.active.concat hroutes
  have hnames : ∀ request ∈ (s.addEndpoint ep submitErrno).1.armed ++
      receives (s.addEndpoint ep submitErrno).1.poller.sq,
      (s.addEndpoint ep submitErrno).1.poller.Routes request := by
    intro request hmem
    rcases hrequests request hmem with hold | hnew
    · obtain ⟨route, hroute, hsocket⟩ := h.requests request hold
      refine ⟨route, ?_, hsocket⟩
      rw [hroutes]
      exact getElem?_concat_of_some hroute _
    · exact hnew
  -- the new transport has no stored endpoint's socket
  have hother {i : Nat} {other : ChannelEndpoint ε} (hother : s.endpoints[i]? = some other) :
      ep.transport.recvFd ≠ other.transport.recvFd :=
    (hopen other (List.mem_of_getElem? hother)).symm
  by_cases hreg : s.Registers submitErrno
  · have heq := hstep hreg
    rw [if_pos hreg] at hendpoints
    refine ⟨⟨fun hep => ?_, fun hep => ?_⟩, hactive, hnames, ?_⟩
    · rw [hendpoints] at hep
      rcases getElem?_concat hep with hold | ⟨rfl, rfl⟩
      · exact h.index hold
      · rw [← heq]
        rfl
    · rw [hendpoints] at hep
      rw [hroutes]
      rcases getElem?_concat hep with hold | ⟨rfl, rfl⟩
      · exact getElem?_concat_of_some (h.socket hold) _
      · rw [← heq, ← hlength]
        exact List.getElem?_concat_length
    · intro t i route stored hroute hep hfd
      rw [hendpoints] at hep
      rw [hroutes] at hroute
      rcases getElem?_concat hroute with hroute | ⟨rfl, rfl⟩
      · rcases getElem?_concat hep with hold | ⟨rfl, rfl⟩
        · exact h.sole hroute hold hfd
        · -- an older transport belongs to a stored endpoint
          obtain ⟨hlt, -⟩ := List.getElem?_eq_some_iff.mp hroute
          have hold := List.getElem?_eq_getElem (show t < s.endpoints.length by omega)
          have hsocket := h.socket hold
          rw [hroute] at hsocket
          rw [Option.some.inj hsocket] at hfd
          exact absurd hfd.symm (hother hold)
      · rcases getElem?_concat hep with hold | ⟨rfl, rfl⟩
        · exact absurd hfd (hother hold)
        · omega
  · rw [if_neg hreg] at hendpoints
    refine ⟨⟨fun hep => ?_, fun hep => ?_⟩, hactive, hnames, fun hroute hep hfd => ?_⟩
    · rw [hendpoints] at hep
      exact h.index hep
    · rw [hendpoints] at hep
      rw [hroutes]
      exact getElem?_concat_of_some (h.socket hep) _
    · rw [hendpoints] at hep
      rw [hroutes] at hroute
      rcases getElem?_concat hroute with hroute | ⟨rfl, rfl⟩
      · exact h.sole hroute hep hfd
      · exact absurd hfd (hother hep)

/-- **Step.** -/
theorem inv_step (api : UringApi) {s : EndpointAgent ε P} (h : s.Inv) {a : EndpointAction ε P}
    (hopen : s.OpensUnused a) (hstep : s.InStep a) : (s.step api a).Inv := by
  cases a with
  | addEndpoint ep submitErrno => exact h.addEndpoint hopen hstep
  | send transportIdx data dest => exact h.serves (serves_send api s transportIdx data dest)
  | flush => exact h.serves (serves_flush api s)
  | poll posted submitErrno => exact h.serves (serves_poll api s posted submitErrno)

theorem allActive_step (api : UringApi) {s : EndpointAgent ε P} (h : AllActive s.poller)
    (a : EndpointAction ε P) : AllActive (s.step api a).poller := by
  have hserves {s' : EndpointAgent ε P} (hs : Serves s s') : AllActive s'.poller := by
    unfold AllActive
    rw [hs.routes]
    exact h
  cases a with
  | addEndpoint ep submitErrno =>
      intro route hmem
      rw [show (s.step api (.addEndpoint ep submitErrno)).poller.routes = _ from
        (s.addEndpoint_spec h ep submitErrno).1] at hmem
      rcases List.mem_append.mp hmem with hold | hnew
      · exact h route hold
      · rw [List.mem_singleton.mp hnew]
  | send transportIdx data dest => exact hserves (serves_send api s transportIdx data dest)
  | flush => exact hserves (serves_flush api s)
  | poll posted submitErrno => exact hserves (serves_poll api s posted submitErrno)

/-- A registration that leaves every endpoint where its transport is was in step. -/
theorem inStep_of_aligned {api : UringApi} {s : EndpointAgent ε P} (hactive : AllActive s.poller)
    {a : EndpointAction ε P} (h : (s.step api a).Aligned) : s.InStep a := by
  cases a with
  | addEndpoint ep submitErrno =>
      intro hreg
      have hendpoints := (s.addEndpoint_spec hactive ep submitErrno).2.2
      rw [if_pos hreg] at hendpoints
      have hlast : (s.step api (.addEndpoint ep submitErrno)).endpoints[s.endpoints.length]? =
          some (registered ep s.poller.transports.length) := by
        rw [show (s.step api (.addEndpoint ep submitErrno)).endpoints = _ from hendpoints]
        exact List.getElem?_concat_length
      exact Option.some.inj (h.index hlast)
  | send transportIdx data dest => trivial
  | flush => trivial
  | poll posted submitErrno => trivial

/-- **Datagrams reach their own endpoint exactly while no registration follows a failed one.** For
every agent that starts with a new poller, and every sequence of registrations (by `add_endpoint` or
from a bridge), sends, flushes and polls: in all states of the run every endpoint is where its
transport is and datagrams reach the owner of their socket, if and only if every registration that
succeeds finds as many transports as endpoints. -/
theorem endpoints_routed_iff (api : UringApi) {p : UringPoller P} (htransports : p.transports = [])
    (hsq : p.sq = []) (as : List (EndpointAction ε P))
    (hopen : Meets OpensUnused (step api) (start p) as) :
    (∀ pre, pre <+: as → (run (step api) (start p) pre).Routed api) ↔
      Meets InStep (step api) (start p) as := by
  have hstart : (start p : EndpointAgent ε P).Inv := inv_start htransports hsq
  constructor
  · intro hall
    refine meets_of_prefixes fun pre a hpre => ?_
    have hactive : AllActive (run (step api) (start p) pre).poller :=
      @run_invariant _ _ (fun _ _ => True) (step api) (fun s => AllActive s.poller)
        (fun _ a hs _ => allActive_step api hs a) (start p) hstart.active pre
        (meets_of_forall fun _ _ => trivial)
    have hnext := (hall (pre ++ [a]) hpre).1
    rw [run_append] at hnext
    exact inStep_of_aligned hactive hnext
  · intro hrun pre hpre
    have hboth := (meets_and hopen hrun).of_isPrefix hpre
    exact (@run_invariant _ _ _ (step api) Inv (fun s a hs ha => inv_step api hs ha.1 ha.2)
      (start p) hstart pre hboth).routed api

def newPoller : UringPoller Unit where
  sqEntries := 4
  sq := []
  cq := []
  overflow := 0
  bufRing := ⟨0, 2048, fun _ => 0, 0, 0, fun _ => []⟩
  pool := .new 4
  transports := []

/-- An endpoint with one socket, not yet registered. -/
def endpointOn (fd : Nat) : ChannelEndpoint Unit := ⟨⟨fd, fd, 0, 0, none⟩, none, ()⟩

/-- Two registrations with traffic between them, and a third whose submission fails. -/
def failsLast : List (EndpointAction Unit Unit) :=
  [.addEndpoint (endpointOn 3) none, .send 0 () none, .flush, .addEndpoint (endpointOn 4) none,
    .poll [⟨UserData.encode ⟨1, opRecv, 0⟩, 0, 0⟩] none, .addEndpoint (endpointOn 5) (some 16)]

theorem endpoints_routed_failsLast :
    Meets OpensUnused (step PollRun.flagApi) (start newPoller) failsLast ∧
      (run (step PollRun.flagApi) (start newPoller) failsLast).Routed PollRun.flagApi := by
  have hopen : Meets OpensUnused (step PollRun.flagApi) (start newPoller) failsLast := by
    decide +kernel
  have hstep : Meets InStep (step PollRun.flagApi) (start newPoller) failsLast := by
    decide +kernel
  exact ⟨hopen, (endpoints_routed_iff PollRun.flagApi rfl rfl failsLast hopen).mpr hstep failsLast
    (List.prefix_refl _)⟩

/-- **A failed registration shifts those after it.** The submission of the first endpoint fails, and
its transport stays. The next two are stored at 0 and 1 with the transports 1 and 2, and what
arrives on the socket of the one is given to the other. -/
theorem failed_registration_misroutes :
    let s := run (step PollRun.flagApi) (start newPoller)
      [.addEndpoint (endpointOn 3) (some 16), .addEndpoint (endpointOn 4) none,
        .addEndpoint (endpointOn 5) none]
    s.endpoints.map (fun ep => (ep.transport.recvFd, ep.transportIdx)) =
        [(4, some 1), (5, some 2)] ∧
      (4, UserData.encode ⟨1, opRecv, 0⟩) ∈ s.armed ∧
      (s.target ⟨1, 0, 0, [], [], 0⟩).map (fun ep => ep.transport.recvFd) = some 5 ∧
      ¬ s.Routed PollRun.flagApi := by
  refine ⟨by decide +kernel, by decide +kernel, by decide +kernel, fun hrouted => ?_⟩
  have hindex := hrouted.1.index (i := 0) (List.getElem?_eq_getElem (by decide +kernel))
  exact absurd hindex (by decide +kernel)

end EndpointAgent

end AeronRs
