import AeronRs.Lib.Runs
import AeronRs.Media.FrameCodecs

/-! # The inbox of a send endpoint

The receiving half of `send_channel_endpoint.rs`. `on_message` stores status messages, NAKs and RTTM
replies in three arrays of fixed size until the agent drains them; whatever does not fit is dropped.
So an inbox holds the first messages of each kind since the last drain (**`onMessage_run`**). -/

namespace AeronRs

open Runs

/-! ## Arrays that drop what does not fit -/

/-- **An array keeps the first messages.** -/
theorem foldl_queuePending {α : Type} {capacity : Nat} {pending : List α}
    (h : pending.length ≤ capacity) (msgs : List α) :
    msgs.foldl (queuePending capacity) pending = (pending ++ msgs).take capacity := by
  induction msgs generalizing pending with
  | nil => rw [List.foldl_nil, List.append_nil, List.take_of_length_le h]
  | cons msg msgs ih =>
      rw [List.foldl_cons, queuePending]
      split_ifs with hroom
      · rw [ih (by rw [List.length_append]; exact hroom), List.append_assoc, List.singleton_append]
      · have hfull : pending.length = capacity := by omega
        rw [ih h, List.take_left' hfull, List.take_left' hfull]

/-! ## Datagrams by what they carry -/

def statusMessageOf (data : List UInt8) : Option StatusMessage :=
  if classifyFrame data = some .statusMessage then StatusMessage.parse data else none

def nakOf (data : List UInt8) : Option NakHeader :=
  if classifyFrame data = some .nak then NakHeader.parse data else none

/-- The reply to a measurement that a datagram carries. -/
def rttmReplyOf (data : List UInt8) : Option RttmHeader :=
  if classifyFrame data = some .rttm then
    (RttmHeader.parse data).filter fun rttm => rttm.frameHeader.flags &&& rttmFlagReply ≠ 0
  else none

/-! ## The inbox -/

/-- The messages that a send endpoint has received: `recent_sm`, `recent_naks` and `recent_rttms`,
each as the filled part of its array. -/
structure ControlInbox where
  recentSm : List StatusMessage
  recentNaks : List NakHeader
  recentRttms : List RttmHeader
  deriving DecidableEq

def maxRecentSm : Nat := 64

def maxRecentNak : Nat := 64

def maxRecentRttm : Nat := 16

namespace ControlInbox

/-- The inbox of a new endpoint, and of any endpoint after `drain_sm`, `drain_naks` and
`drain_rttm_replies`. -/
def empty : ControlInbox := ⟨[], [], []⟩

def onMessage (inbox : ControlInbox) (data : List UInt8) : ControlInbox :=
  match FrameHeader.parse data with
  | none => inbox
  | some hdr =>
      match FrameType.ofField hdr.frameType with
      | .statusMessage =>
          match StatusMessage.parse data with
          | some sm => { inbox with recentSm := queuePending maxRecentSm inbox.recentSm sm }
          | none => inbox
      | .nak =>
          match NakHeader.parse data with
          | some nak => { inbox with recentNaks := queuePending maxRecentNak inbox.recentNaks nak }
          | none => inbox
      | .rttm =>
          match RttmHeader.parse data with
          | some rttm =>
              -- only replies are stored
              if rttm.frameHeader.flags &&& rttmFlagReply ≠ 0 then
                { inbox with recentRttms := queuePending maxRecentRttm inbox.recentRttms rttm }
              else inbox
          | none => inbox
      | _ => inbox

/-- **Step.** A datagram is offered to each array as the message of that kind that it carries. -/
theorem onMessage_eq (inbox : ControlInbox) (data : List UInt8) :
    inbox.onMessage data =
      ⟨(statusMessageOf data).toList.foldl (queuePending maxRecentSm) inbox.recentSm,
        (nakOf data).toList.foldl (queuePending maxRecentNak) inbox.recentNaks,
        (rttmReplyOf data).toList.foldl (queuePending maxRecentRttm) inbox.recentRttms⟩ := by
  unfold onMessage statusMessageOf nakOf rttmReplyOf classifyFrame
  cases FrameHeader.parse data with
  | none => rfl
  | some hdr =>
      simp only [Option.map_some, Option.some.injEq]
      cases FrameType.ofField hdr.frameType with
      | statusMessage => cases StatusMessage.parse data <;> rfl
      | nak => cases NakHeader.parse data <;> rfl
      | rttm =>
          cases RttmHeader.parse data with
          | none => rfl
          | some rttm =>
              by_cases hreply : rttm.frameHeader.flags &&& rttmFlagReply ≠ 0
              · simp [hreply, Option.filter]
              · simp [hreply, Option.filter]
      | _ => rfl

/-- **Run.** An inbox that was drained holds the first messages of each kind. -/
theorem onMessage_run (datagrams : List (List UInt8)) :
    run onMessage empty datagrams =
      ⟨(datagrams.filterMap statusMessageOf).take maxRecentSm,
        (datagrams.filterMap nakOf).take maxRecentNak,
        (datagrams.filterMap rttmReplyOf).take maxRecentRttm⟩ := by
  have hrun : ∀ inbox : ControlInbox, run onMessage inbox datagrams =
      ⟨(datagrams.filterMap statusMessageOf).foldl (queuePending maxRecentSm) inbox.recentSm,
        (datagrams.filterMap nakOf).foldl (queuePending maxRecentNak) inbox.recentNaks,
        (datagrams.filterMap rttmReplyOf).foldl (queuePending maxRecentRttm) inbox.recentRttms⟩ := by
    induction datagrams with
    | nil => exact fun inbox => rfl
    | cons data datagrams ih =>
        intro inbox
        rw [run_cons, ih, onMessage_eq]
        simp only [List.filterMap_cons]
        cases statusMessageOf data <;> cases nakOf data <;> cases rttmReplyOf data <;> rfl
  rw [hrun, empty, foldl_queuePending (Nat.zero_le _), foldl_queuePending (Nat.zero_le _),
    foldl_queuePending (Nat.zero_le _)]
  rfl

end ControlInbox

end AeronRs
