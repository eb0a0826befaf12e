import AeronRs.Agent.ImageTable
import AeronRs.Client.SubscriptionBridge

/-! # Handing new images over to the client

With a subscription bridge, `on_setup` stores a new image in the receiver's table and deposits the
subscriber's half of it in the bridge, from where the polls of the subscriptions take it. The table,
the bridge and the subscriptions are one state here.

**`Handed`** says that every image of the table can still be read by the client: its handle waits in
the bridge or a subscription holds it. The image stays in the table when its handle finds no slot,
so this and `KeepsTable` hold exactly as long as a new image finds an empty slot
(`images_handed_over_iff`). -/

namespace AeronRs

open Runs

/-- The image table of the receiver with the client's side of its images. A handle is given by the
number of its image. -/
structure Handover where
  table : ImageTable
  bridge : List (BridgeSlot Nat)
  subscriptions : List (Subscription Nat)

/-- A setup frame, a call to `remove_image`, or a poll of one of the subscriptions. -/
inductive HandoverAction where
  | setup (handler : InlineHandler) (setup : SetupHeader) (source : SockAddr)
  | remove (sessionId streamId : BitVec 32)
  | poll (subscription : Nat) (limit : Int)

namespace Handover

def start (maxReceiverImages : Nat) (streamIds : List (BitVec 32)) : Handover where
  table := .new maxReceiverImages
  bridge := newBridge
  subscriptions := streamIds.map fun streamId => ⟨streamId, []⟩

/-- What `on_setup` deposits for the image that it creates. -/
def pendingImage (s : Handover) (setup : SetupHeader) : PendingImage Nat where
  image := s.table.created
  sessionId := setup.sessionId
  streamId := setup.streamId
  correlationId := 0

/-- `on_setup`. When the deposit fails there is a warning and nothing else. -/
def onSetup (handler : InlineHandler) (s : Handover) (setup : SetupHeader) (source : SockAddr) :
    Handover :=
  if (s.table.find setup.sessionId setup.streamId).isNone ∧
      s.table.imageCount < s.table.maxImages then
    match ImageState.onSetup handler setup source with
    | none => s
    | some image =>
        { s with
          table := s.table.addImage setup image
          bridge := (deposit s.bridge (s.pendingImage setup)).1 }
  else s

/-- `remove_image`. It always ends, as `ImageTable.Refines.removeImage` says. -/
def removeImage (s : Handover) (sessionId streamId : BitVec 32) : Handover :=
  match s.table.removeImage sessionId streamId with
  | none => s
  | some (table, _) => { s with table }

/-- `poll` of a subscription, up to the reading of fragments. -/
def pollSubscription (s : Handover) (sub : Subscription Nat) (limit : Int) :
    List (BridgeSlot Nat) × Subscription Nat :=
  if limit ≤ 0 then (s.bridge, sub)
  else
    let drained := drainLoop sub.streamId s.bridge sub.images
    (drained.1,
      { sub with images := removeClosedImages (fun id => s.table.closed.contains id) drained.2 })

def poll (s : Handover) (k : Nat) (limit : Int) : Handover :=
  match s.subscriptions[k]? with
  | none => s
  | some sub =>
      { s with
        bridge := (s.pollSubscription sub limit).1
        subscriptions := s.subscriptions.set k (s.pollSubscription sub limit).2 }

def step (s : Handover) : HandoverAction → Handover
  | .setup handler setup source => s.onSetup handler setup source
  | .remove sessionId streamId => s.removeImage sessionId streamId
  | .poll k limit => s.poll k limit

/-! ## Handles of the client -/

def handles (s : Handover) : List Nat :=
  (waiting s.bridge).map PendingImage.image ++ s.subscriptions.flatMap Subscription.images

/-- The client can get at the image of slot `i`: the handle waits in the bridge or a subscription
holds it. -/
def HandedAt (s : Handover) (i : Nat) : Prop :=
  match s.table.imageHandles i with
  | none => False
  | some handle => handle.id ∈ (waiting s.bridge).map PendingImage.image ∨
      ∃ sub ∈ s.subscriptions, handle.id ∈ sub.images

instance (s : Handover) (i : Nat) : Decidable (s.HandedAt i) :=
  match h : s.table.imageHandles i with
  | none => isFalse fun hs => by rw [HandedAt, h] at hs; exact hs
  | some handle =>
      decidable_of_iff (handle.id ∈ (waiting s.bridge).map PendingImage.image ∨
        ∃ sub ∈ s.subscriptions, handle.id ∈ sub.images) (by rw [HandedAt, h])

/-- **Every image of the table has its handle with the client.** -/
def Handed (s : Handover) : Prop := ∀ i < s.table.imageCount, s.HandedAt i

instance (s : Handover) : Decidable s.Handed :=
  inferInstanceAs (Decidable (∀ i < s.table.imageCount, s.HandedAt i))

/-- **A setup frame whose handle cannot be deposited** leaves the table as it is. -/
def KeepsTable (s : Handover) : HandoverAction → Prop
  | .setup handler setup source =>
      (deposit s.bridge (s.pendingImage setup)).2 = false →
        (s.onSetup handler setup source).table = s.table
  | _ => True

def Creates (handler : InlineHandler) (s : Handover) (setup : SetupHeader) (source : SockAddr) :
    Prop :=
  (s.table.find setup.sessionId setup.streamId).isNone ∧ s.table.imageCount < s.table.maxImages ∧
    (ImageState.onSetup handler setup source).isSome

instance (handler : InlineHandler) (s : Handover) (setup : SetupHeader) (source : SockAddr) :
    Decidable (s.Creates handler setup source) :=
  inferInstanceAs (Decidable (_ ∧ _ ∧ _))

/-- A setup frame that creates an image finds an empty slot in the bridge. -/
def FindsSlot (s : Handover) : HandoverAction → Prop
  | .setup handler setup source =>
      s.Creates handler setup source → ∃ slot ∈ s.bridge, slot.state = .empty
  | _ => True

instance (s : Handover) : (a : HandoverAction) → Decidable (s.FindsSlot a)
  | .setup handler setup source =>
      inferInstanceAs (Decidable (s.Creates handler setup source →
        ∃ slot ∈ s.bridge, slot.state = .empty))
  | .remove _ _ => isTrue trivial
  | .poll _ _ => isTrue trivial

theorem mem_handles {s : Handover} {id : Nat} :
    id ∈ s.handles ↔ id ∈ (waiting s.bridge).map PendingImage.image ∨
      ∃ sub ∈ s.subscriptions, id ∈ sub.images := by
  rw [handles, List.mem_append, List.mem_flatMap]

/-! ## Setup frames -/

theorem onSetup_of_not_creates {handler : InlineHandler} {s : Handover} {setup : SetupHeader}
    {source : SockAddr} (h : ¬ s.Creates handler setup source) :
    s.onSetup handler setup source = s := by
  rw [onSetup]
  split_ifs with hfree
  · cases hcreate : ImageState.onSetup handler setup source with
    | none => rfl
    | some image => exact absurd ⟨hfree.1, hfree.2, by rw [hcreate]; rfl⟩ h
  · rfl

/-- One that does stores it in the table, and deposits what fits. -/
theorem onSetup_of_creates {handler : InlineHandler} {s : Handover} {setup : SetupHeader}
    {source : SockAddr} (h : s.Creates handler setup source) :
    ∃ image, ImageState.onSetup handler setup source = some image ∧
      s.onSetup handler setup source =
        { s with
          table := s.table.addImage setup image
          bridge := (deposit s.bridge (s.pendingImage setup)).1 } := by
  obtain ⟨hnone, hcount, hsome⟩ := h
  obtain ⟨image, hcreate⟩ := Option.isSome_iff_exists.mp hsome
  refine ⟨image, hcreate, ?_⟩
  rw [onSetup, if_pos ⟨hnone, hcount⟩, hcreate]

theorem table_onSetup (handler : InlineHandler) (s : Handover) (setup : SetupHeader)
    (source : SockAddr) :
    (s.onSetup handler setup source).table = s.table.onSetup handler setup source := by
  rw [onSetup, ImageTable.onSetup]
  split_ifs
  · cases ImageState.onSetup handler setup source <;> rfl
  · rfl

/-- **The table is kept exactly when a slot is found**: an image that is created is stored in any
case. -/
theorem keepsTable_iff (s : Handover) (a : HandoverAction) : s.KeepsTable a ↔ s.FindsSlot a := by
  cases a with
  | remove sessionId streamId => exact Iff.rfl
  | poll k limit => exact Iff.rfl
  | setup handler setup source =>
      have hslot := @deposit_eq_true_iff _ s.bridge (s.pendingImage setup)
      rw [KeepsTable, FindsSlot, ← hslot]
      cases hdeposit : (deposit s.bridge (s.pendingImage setup)).2 with
      | true => simp
      | false =>
          by_cases hcreates : s.Creates handler setup source
          · obtain ⟨image, -, hsetup⟩ := onSetup_of_creates hcreates
            have hmore : (s.onSetup handler setup source).table ≠ s.table := fun hsame => by
              have hcount := congrArg ImageTable.imageCount hsame
              rw [hsetup] at hcount
              exact Nat.succ_ne_self _ hcount
            simp [hcreates, hmore]
          · simp [hcreates, onSetup_of_not_creates hcreates]

end Handover

/-! ## Numbers of the images -/

/-- A setup frame adds at most the image that gets the next number. -/
theorem LiveImages.mem_live_of_setup {l : LiveImages} {maxImages : Nat} {handler : InlineHandler}
    {setup : SetupHeader} {source : SockAddr} {c : CreatedImage}
    (hc : c ∈ (l.step maxImages (.setup handler setup source)).live) :
    c ∈ l.live ∨ c.handle.id = l.created := by
  rw [LiveImages.step] at hc
  split_ifs at hc
  · cases hcreate : ImageState.onSetup handler setup source with
    | none =>
        rw [hcreate] at hc
        exact .inl hc
    | some s =>
        rw [hcreate] at hc
        rcases List.mem_append.mp hc with hold | hnew
        · exact .inl hold
        · rw [List.mem_singleton.mp hnew]
          exact .inr rfl
  · exact .inl hc

/-- **No number is given twice**, to live images or to closed ones. -/
structure LiveImages.Numbered (l : LiveImages) : Prop where
  nodup : (l.live.map (fun c => c.handle.id) ++ l.closed).Nodup
  lt_created : ∀ id ∈ l.live.map (fun c => c.handle.id) ++ l.closed, id < l.created

namespace LiveImages.Numbered

variable {l : LiveImages}

theorem start : LiveImages.start.Numbered := ⟨List.nodup_nil, fun _ h => nomatch h⟩

theorem not_mem_closed (h : l.Numbered) {c : CreatedImage} (hc : c ∈ l.live) :
    c.handle.id ∉ l.closed := fun hclosed =>
  (List.nodup_append.mp h.nodup).2.2 _ (List.mem_map_of_mem hc) _ hclosed rfl

/-- A setup frame takes the next number, and a removal moves numbers to the closed ones. -/
theorem step (h : l.Numbered) (maxImages : Nat) (call : TableCall) :
    (l.step maxImages call).Numbered := by
  cases call with
  | setup handler setup source =>
      rw [LiveImages.step]
      split_ifs
      · cases ImageState.onSetup handler setup source with
        | none => exact h
        | some s =>
            have hperm : ((l.live ++ [(⟨s.entry, l.created, s.image⟩ : CreatedImage)]).map
                (fun c => c.handle.id) ++ l.closed).Perm
                  (l.created :: (l.live.map (fun c => c.handle.id) ++ l.closed)) := by
              rw [List.map_append, List.append_assoc]
              exact List.perm_middle
            refine ⟨hperm.nodup_iff.mpr (List.nodup_cons.mpr ⟨fun hmem => ?_, h.nodup⟩), ?_⟩
            · exact Nat.lt_irrefl _ (h.lt_created _ hmem)
            · intro id hid
              rcases List.mem_cons.mp (hperm.subset hid) with rfl | hold
              · exact Nat.lt_succ_self _
              · exact Nat.lt_succ_of_lt (h.lt_created id hold)
      · exact h
  | remove sessionId streamId =>
      have hperm : ((l.step maxImages (.remove sessionId streamId)).live.map
          (fun c => c.handle.id) ++ (l.step maxImages (.remove sessionId streamId)).closed).Perm
            (l.live.map (fun c => c.handle.id) ++ l.closed) := by
        set kept := l.live.filter fun c => !c.entry.hasIds sessionId streamId
        set gone := l.live.filter fun c => c.entry.hasIds sessionId streamId
        have hsplit : (gone ++ kept).Perm l.live := List.filter_append_perm _ _
        have hids := (List.perm_append_comm.trans hsplit).map fun c => c.handle.id
        rw [List.map_append] at hids
        show (kept.map _ ++ (l.closed ++ gone.map _)).Perm _
        refine (List.perm_append_comm.append_left _).trans ?_
        rw [← List.append_assoc]
        exact hids.append_right _
      exact ⟨hperm.nodup_iff.mpr h.nodup, fun id hid => h.lt_created id (hperm.subset hid)⟩

end LiveImages.Numbered

namespace Handover

/-! ## Runs -/

/-- **The invariant**: the table is that of some live images, and the client has their handles. -/
def Inv (s : Handover) : Prop :=
  ∃ l, s.table.Refines l ∧ l.Numbered ∧ ∀ c ∈ l.live, c.handle.id ∈ s.handles

theorem inv_start (maxReceiverImages : Nat) (streamIds : List (BitVec 32)) :
    (start maxReceiverImages streamIds).Inv :=
  ⟨.start, ImageTable.refines_new maxReceiverImages, LiveImages.Numbered.start,
    fun _ h => nomatch h⟩

theorem Inv.handed {s : Handover} (h : s.Inv) : s.Handed := by
  obtain ⟨l, hrefines, -, hhandles⟩ := h
  intro i hi
  obtain ⟨c, hc, -, hhandle⟩ := hrefines.held i hi
  rw [HandedAt, hhandle]
  exact mem_handles.mp (hhandles c hc)

/-- A setup frame that finds a slot adds its handle to those of the client. -/
theorem Inv.onSetup {s : Handover} (h : s.Inv) {handler : InlineHandler} {setup : SetupHeader}
    {source : SockAddr} (hslot : s.FindsSlot (.setup handler setup source)) :
    (s.onSetup handler setup source).Inv := by
  by_cases hcreates : s.Creates handler setup source
  · obtain ⟨l, hrefines, hnumbered, hhandles⟩ := h
    have hdeposit : (deposit s.bridge (s.pendingImage setup)).2 = true :=
      deposit_eq_true_iff.mpr (hslot hcreates)
    have hperm : (s.onSetup handler setup source).handles.Perm (s.table.created :: s.handles) := by
      obtain ⟨image, -, hsetup⟩ := onSetup_of_creates hcreates
      rw [hsetup]
      exact ((deposit_perm hdeposit).map PendingImage.image).append_right _
    refine ⟨l.step s.table.maxImages (.setup handler setup source), ?_, hnumbered.step _ _,
      fun c hc => hperm.mem_iff.mpr ?_⟩
    · rw [table_onSetup]
      exact hrefines.onSetup handler setup source
    · rcases LiveImages.mem_live_of_setup hc with hold | hnew
      · exact List.mem_cons_of_mem _ (hhandles c hold)
      · rw [hnew, ← hrefines.created_eq]
        exact List.mem_cons_self
  · rw [onSetup_of_not_creates hcreates]
    exact h

theorem Inv.removeImage {s : Handover} (h : s.Inv) (sessionId streamId : BitVec 32) :
    (s.removeImage sessionId streamId).Inv := by
  obtain ⟨l, hrefines, hnumbered, hhandles⟩ := h
  obtain ⟨t', hremove, -, hrefines'⟩ := hrefines.removeImage sessionId streamId
  rw [Handover.removeImage, hremove]
  refine ⟨_, hrefines', hnumbered.step _ _, fun c hc => hhandles c ?_⟩
  exact List.mem_of_mem_filter hc

theorem mem_pollSubscription {s : Handover} {sub : Subscription Nat} {id : Nat}
    (hid : id ∈ (waiting s.bridge).map PendingImage.image ∨ id ∈ sub.images)
    (hopen : id ∉ s.table.closed) (limit : Int) :
    id ∈ (waiting (s.pollSubscription sub limit).1).map PendingImage.image ∨
      id ∈ (s.pollSubscription sub limit).2.images := by
  rw [pollSubscription]
  split_ifs
  · exact hid
  · have hdrained := (drainLoop_perm sub.streamId s.bridge sub.images).mem_iff.mpr
      (List.mem_append.mpr hid)
    refine (List.mem_append.mp hdrained).imp_right fun hheld => ?_
    refine (removeClosedImages_perm _ _).mem_iff.mpr (List.mem_filter.mpr ⟨hheld, ?_⟩)
    simp [hopen]

/-- **A poll** leaves the handles of open images with the client. -/
theorem mem_handles_poll {s : Handover} {id : Nat} (hid : id ∈ s.handles)
    (hopen : id ∉ s.table.closed) (k : Nat) (limit : Int) : id ∈ (s.poll k limit).handles := by
  rw [poll]
  cases hsub : s.subscriptions[k]? with
  | none => exact hid
  | some sub =>
      obtain ⟨hk, -⟩ := List.getElem?_eq_some_iff.mp hsub
      set polled := s.pollSubscription sub limit with hpolled
      rw [mem_handles] at hid ⊢
      dsimp only
      -- the handles of the other subscriptions stay where they are
      have hcases : (id ∈ (waiting s.bridge).map PendingImage.image ∨ id ∈ sub.images) ∨
          ∃ other ∈ s.subscriptions.set k polled.2, id ∈ other.images := by
        rcases hid with hwaits | ⟨other, hother, hheld⟩
        · exact .inl (.inl hwaits)
        · obtain ⟨j, hj⟩ := List.mem_iff_getElem?.mp hother
          by_cases hjk : j = k
          · rw [hjk, hsub] at hj
            cases hj
            exact .inl (.inr hheld)
          · refine .inr ⟨other, List.mem_iff_getElem?.mpr ⟨j, ?_⟩, hheld⟩
            rw [List.getElem?_set_ne (Ne.symm hjk)]
            exact hj
      rcases hcases with howned | hother
      · refine (mem_pollSubscription howned hopen limit).imp_right fun hheld => ?_
        exact ⟨polled.2, List.mem_set hk _, hheld⟩
      · exact .inr hother

theorem Inv.poll {s : Handover} (h : s.Inv) (k : Nat) (limit : Int) : (s.poll k limit).Inv := by
  obtain ⟨l, hrefines, hnumbered, hhandles⟩ := h
  have htable : (s.poll k limit).table = s.table := by
    rw [Handover.poll]
    cases s.subscriptions[k]? <;> rfl
  refine ⟨l, htable ▸ hrefines, hnumbered, fun c hc => ?_⟩
  refine mem_handles_poll (hhandles c hc) ?_ k limit
  rw [hrefines.closed_eq]
  exact hnumbered.not_mem_closed hc

/-- **One action.** -/
theorem Inv.step {s : Handover} (h : s.Inv) {a : HandoverAction} (hslot : s.FindsSlot a) :
    (s.step a).Inv := by
  cases a with
  | setup handler setup source => exact h.onSetup hslot
  | remove sessionId streamId => exact h.removeImage sessionId streamId
  | poll k limit => exact h.poll k limit

/-- **Images are handed over as a whole exactly when the bridge has room.** For any setup frames,
removals and polls of any subscriptions: every image of the table has its handle with the client at
all times, and a setup frame whose handle cannot be deposited leaves the table as it was, if and
only if each setup frame that creates an image finds an empty slot in the bridge. -/
theorem images_handed_over_iff (maxReceiverImages : Nat) (streamIds : List (BitVec 32))
    (actions : List HandoverAction) :
    ((∀ pre, pre <+: actions → (run step (start maxReceiverImages streamIds) pre).Handed) ∧
      Meets KeepsTable step (start maxReceiverImages streamIds) actions) ↔
    Meets FindsSlot step (start maxReceiverImages streamIds) actions := by
  rw [meets_congr keepsTable_iff]
  refine ⟨And.right, fun h => ⟨fun pre hpre => ?_, h⟩⟩
  have hinv := @run_invariant _ _ FindsSlot step Inv (fun _ _ hs ha => hs.step ha) _
    (inv_start maxReceiverImages streamIds) pre (h.of_isPrefix hpre)
  exact hinv.handed

def sessionSetup (session : Nat) : HandoverAction :=
  .setup ⟨0, 0, [], false, none⟩
    { frameHeader := ⟨40, currentVersion, 0, frameTypeSetup⟩
      termOffset := 0
      sessionId := BitVec.ofNat 32 session
      streamId := 7
      initialTermId := 0
      activeTermId := 0
      termLength := 64
      mtu := 1408
      ttl := 0 } ⟨2, []⟩

/-- **An image that the client never sees.** Thirty-three sessions of a stream are set up before its
subscription polls. The last handle finds the bridge full and its image stays in the table; when the
subscription has polled, the next setup frame of the session finds the image there and deposits
nothing. -/
theorem image_never_handed_over :
    ¬ Meets KeepsTable step (start 64 [7]) ((List.range 33).map sessionSetup) ∧
      ¬ (run step (start 64 [7]) ((List.range 33).map sessionSetup)).Handed ∧
      ¬ (run step (start 64 [7])
        ((List.range 33).map sessionSetup ++ [.poll 0 1, sessionSetup 32])).HandedAt 32 := by
  rw [meets_congr keepsTable_iff]
  decide +kernel

end Handover

end AeronRs
