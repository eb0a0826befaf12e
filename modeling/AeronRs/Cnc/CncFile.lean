import AeronRs.Cnc.Record
import AeronRs.Lib.Runs

/-! # The CnC file

The file of `cnc_file.rs`: a header, the ring buffer to the driver, the broadcast buffer to the clients.
The driver stores the version last; a client reads it first, and so knows that the rest is there. When
the driver is dropped it clears the version.

**`client_maps_ready`**: whenever a client maps the file, it is told to wait or finds the capacities of
the driver. These are stored as 32-bit numbers, so that capacities from 2³¹ on cannot be used. -/

namespace AeronRs

open Runs

inductive CncError
  | invalidCapacity
  | ioError (errno : Int)
  | versionMismatch
  | notReady
  deriving DecidableEq

def cncVersion : BitVec 32 := 1

/-- `to_clients_offset`; the ring buffer to the driver is behind the 256 bytes of the header. -/
def toClientsOffset (toDriverCapacity : Nat) : Nat := 256 + requiredBufferSize toDriverCapacity

/-- The check of `MpscRingBuffer::new` and `BroadcastTransmitter::new`. -/
def validCapacity (capacity : Nat) : Bool := recordAlignment ≤ capacity && isPowerOfTwo capacity

/-- What `DriverCnc::init` stores: the capacities, which `validate_capacities` has checked, the process
and the time. -/
structure CncParams where
  toDriverCapacity : Nat
  toClientsCapacity : Nat
  toDriver_valid : validCapacity toDriverCapacity = true
  toClients_valid : validCapacity toClientsCapacity = true
  pid : BitVec 32
  epochMs : BitVec 64

/-- The stores of `DriverCnc::init` to the zeroed header, in order. -/
def CncParams.initStores (p : CncParams) : List (Nat × List UInt8) :=
  [(4, encodeI32 p.pid), (8, encodeI32 (.ofNat 32 p.toDriverCapacity)),
    (12, encodeI32 (.ofNat 32 p.toClientsCapacity)), (16, encodeI64 p.epochMs),
    (0, encodeI32 cncVersion)]

def asUsize (x : BitVec 32) : Nat := (x.signExtend 64).toNat

/-- `ClientCnc`: the capacities of its two buffers and the cursor of its receiver. -/
structure ClientCnc where
  toDriverCapacity : Nat
  toClientsCapacity : Nat
  cursor : BitVec 64
  deriving DecidableEq

/-- `ClientCnc::from_ptr`. The file may change between its loads of the version, of the capacities and
of the tail counter. -/
def ClientCnc.fromPtr (atVersion atCapacities atTail : ByteStore) : Except CncError ClientCnc :=
  let version := atVersion.readI32 0
  if version = 0 then .error .notReady
  else if version ≠ cncVersion then .error .versionMismatch
  else
    let toDriverCapacity := asUsize (atCapacities.readI32 8)
    let toClientsCapacity := asUsize (atCapacities.readI32 12)
    if validCapacity toDriverCapacity = false then .error .invalidCapacity
    else if validCapacity toClientsCapacity = false then .error .invalidCapacity
    else
      let tail := toClientsOffset toDriverCapacity + toClientsCapacity
      .ok ⟨toDriverCapacity, toClientsCapacity, .ofNat 64 (ofLE (atTail.read tail 8))⟩

/-! ## The shared memory -/

/-- The mapped file, the stores of `init` that are still to come, and whether the driver is gone. -/
structure CncRun where
  memory : ByteStore
  pending : List (Nat × List UInt8)
  dropped : Bool

/-- The next store of `init`; `update_heartbeat`; a store through the ring or the broadcast buffer of
the driver or of a client, at an offset behind the header; `DriverCnc::drop`. -/
inductive CncAction
  | init
  | updateHeartbeat (epochMs : BitVec 64)
  | store (offset : Nat) (bytes : List UInt8)
  | drop

/-- The store of `DriverCnc::drop`: no version. -/
def dropStore : Nat × List UInt8 := (0, encodeI32 0)

namespace CncRun

variable {p : CncParams} {s : CncRun} {done : List (Nat × List UInt8)}

def start (p : CncParams) : CncRun := ⟨fun _ => 0, p.initStores, false⟩

/-- One action. Until `init` is done nobody has a handle, and the driver has none once it is dropped;
a client keeps its own. -/
def step (s : CncRun) : CncAction → CncRun
  | .init =>
      match s.pending with
      | [] => s
      | (address, bytes) :: pending => { s with memory := s.memory.write address bytes, pending }
  | .updateHeartbeat epochMs =>
      if s.pending = [] ∧ s.dropped = false then
        { s with memory := s.memory.write 16 (encodeI64 epochMs) }
      else s
  | .store offset bytes =>
      if s.pending = [] then { s with memory := s.memory.write (256 + offset) bytes } else s
  | .drop =>
      if s.pending = [] ∧ s.dropped = false then
        { s with memory := s.memory.write dropStore.1 dropStore.2, dropped := true }
      else s

def stored (ws : List (Nat × List UInt8)) : ByteStore :=
  run (fun m w => m.write w.1 w.2) (fun _ => 0) ws

theorem stored_concat (ws : List (Nat × List UInt8)) (w : Nat × List UInt8) :
    stored (ws ++ [w]) = (stored ws).write w.1 w.2 :=
  run_append ..

/-- What the driver has stored once it is gone. -/
def dropStores (s : CncRun) : List (Nat × List UInt8) := if s.dropped then [dropStore] else []

theorem dropStores_of_live (h : s.dropped = false) : s.dropStores = [] := by
  rw [dropStores, h, if_neg Bool.false_ne_true]

/-- **The first 16 bytes of the header**: the first stores of `init` have been made, behind all of them
the one of `drop`, and nothing else. -/
structure Written (p : CncParams) (s : CncRun) (done : List (Nat × List UInt8)) : Prop where
  done_eq : done ++ s.pending = p.initStores
  dropped : s.dropped = true → s.pending = []
  bytes : ∀ i < 16, s.memory i = stored (done ++ s.dropStores) i

theorem Written.behind (h : s.Written p done) {address : Nat} (haddress : 16 ≤ address)
    (bytes : List UInt8) :
    Written p { s with memory := s.memory.write address bytes } done :=
  ⟨h.done_eq, h.dropped, fun i hi =>
    (ByteStore.write_of_outside _ _ _ (.inl (by omega))).trans (h.bytes i hi)⟩

theorem Written.next (h : s.Written p done) (hdropped : s.dropped = false) (w : Nat × List UInt8) :
    ∀ i < 16, s.memory.write w.1 w.2 i = stored (done ++ [w]) i := by
  intro i hi
  have hbytes := h.bytes i hi
  rw [dropStores_of_live hdropped, List.append_nil] at hbytes
  rw [stored_concat]
  change (if _ then _ else s.memory i) = if _ then _ else stored done i
  rw [hbytes]

/-- **Step.** -/
theorem Written.step (h : s.Written p done) (a : CncAction) :
    ∃ done', (s.step a).Written p done' := by
  cases a with
  | init =>
      obtain ⟨memory, pending, dropped⟩ := s
      cases pending with
      | nil => exact ⟨done, h⟩
      | cons w pending =>
          -- `init` is not done, so there is no handle to drop
          obtain rfl : dropped = false := by
            cases dropped with
            | false => rfl
            | true => cases h.dropped rfl
          refine ⟨done ++ [w], by rw [← h.done_eq, List.append_assoc]; rfl,
            fun hd => absurd hd Bool.false_ne_true, ?_⟩
          intro i hi
          change _ = stored (done ++ [w] ++ []) i
          rw [List.append_nil]
          exact h.next rfl w i hi
  | updateHeartbeat epochMs =>
      simp only [CncRun.step]
      split_ifs
      · exact ⟨done, h.behind (Nat.le_refl 16) _⟩
      · exact ⟨done, h⟩
  | store offset bytes =>
      simp only [CncRun.step]
      split_ifs
      · exact ⟨done, h.behind (by omega) bytes⟩
      · exact ⟨done, h⟩
  | drop =>
      simp only [CncRun.step]
      split_ifs with hlive
      · exact ⟨done, h.done_eq, fun _ => hlive.1, h.next hlive.2 dropStore⟩
      · exact ⟨done, h⟩

/-- **Run.** -/
theorem written_run (p : CncParams) (as : List CncAction) :
    ∃ done, (run step (start p) as).Written p done :=
  @run_invariant _ _ (fun _ _ => True) step (fun s => ∃ done, s.Written p done)
    (fun _ a hs _ => hs.elim fun _ hwritten => hwritten.step a) _
    ⟨[], rfl, fun hd => absurd hd Bool.false_ne_true, fun _ _ => rfl⟩ as
    (meets_of_forall fun _ _ => trivial)

/-- Once `init` is done it stays done. -/
theorem pending_run (h : s.pending = []) (as : List CncAction) : (run step s as).pending = [] :=
  @run_invariant _ _ (fun _ _ => True) step (fun s => s.pending = []) (fun s a hs _ => by
    cases a with
    | init => simp only [step, hs]
    | updateHeartbeat | store | drop =>
        simp only [step]
        split_ifs <;> exact hs) _ h as (meets_of_forall fun _ _ => trivial)

theorem Written.readI32_eq (h : s.Written p done) {a : Nat} (ha : a + 4 ≤ 16) {x : BitVec 32}
    (hread : (stored (done ++ s.dropStores)).read a 4 = encodeI32 x) : s.memory.readI32 a = x := by
  rw [ByteStore.readI32, ByteStore.read_congr fun i hi => h.bytes _ (by omega), hread, ofLE_encodeI32]

theorem read_stored_concat (ws : List (Nat × List UInt8)) (a : Nat) (x : BitVec 32) :
    (stored (ws ++ [(a, encodeI32 x)])).read a 4 = encodeI32 x := by
  rw [stored_concat]
  exact encodeI32_length x ▸ (stored ws).read_write_same a (encodeI32 x)

/-- **There is no version** before the last store of `init`, nor once the driver is gone. -/
theorem Written.version_eq_zero (h : s.Written p done) (hnone : s.pending ≠ [] ∨ s.dropped = true) :
    s.memory.readI32 0 = 0 := by
  cases hdropped : s.dropped with
  | true =>
      refine h.readI32_eq (by decide) ?_
      rw [dropStores, if_pos hdropped]
      exact read_stored_concat done 0 0
  | false =>
      have hpending : s.pending ≠ [] := hnone.resolve_right (by simp [hdropped])
      have hlength : done.length ≤ 4 := by
        have hall := congrArg List.length h.done_eq
        have hsome := List.length_pos_iff.mpr hpending
        rw [List.length_append, show p.initStores.length = 5 from rfl] at hall
        omega
      -- the version is the fifth store, and the others are behind it
      have hbehind : ∀ w ∈ p.initStores.take 4, 4 ≤ w.1 := by simp [CncParams.initStores]
      have htake : done = p.initStores.take done.length := by rw [← h.done_eq, List.take_left]
      refine readI32_eq_zero fun i hi => (h.bytes _ (by omega)).trans ?_
      rw [dropStores_of_live hdropped, List.append_nil]
      exact @run_invariant ByteStore (Nat × List UInt8) (fun _ w => 4 ≤ w.1) _
        (fun m => m (0 + i) = 0)
        (fun m w hm hw => (m.write_of_outside w.1 w.2 (.inl (by omega))).trans hm) _ rfl done
        (meets_of_forall fun w hw => hbehind w (List.take_subset_take_left _ hlength (htake ▸ hw)))

theorem Written.header (h : s.Written p done) (hpending : s.pending = []) :
    (s.dropped = false → s.memory.readI32 0 = cncVersion) ∧
      s.memory.readI32 8 = .ofNat 32 p.toDriverCapacity ∧
      s.memory.readI32 12 = .ofNat 32 p.toClientsCapacity := by
  obtain rfl : done = p.initStores := by rw [← h.done_eq, hpending, List.append_nil]
  -- the store of `drop` is before the capacities
  have hdrop : ∀ a, 4 ≤ a → (stored (p.initStores ++ s.dropStores)).read a 4 =
      (stored p.initStores).read a 4 := by
    intro a ha
    unfold dropStores
    split_ifs
    · rw [stored_concat]
      exact ByteStore.read_write_disjoint _ (.inr (by simpa [dropStore] using ha))
    · rw [List.append_nil]
  refine ⟨fun hlive => h.readI32_eq (by decide) ?_, h.readI32_eq (by decide) ?_,
    h.readI32_eq (by decide) ?_⟩
  · rw [dropStores_of_live hlive, List.append_nil]
    exact read_stored_concat (p.initStores.take 4) 0 cncVersion
  all_goals
    rw [hdrop _ (by decide)]
    simp only [stored, CncParams.initStores, run_cons, run_nil]
  · rw [ByteStore.read_write_disjoint _ (.inr (by simp)),
      ByteStore.read_write_disjoint _ (.inl (by simp)),
      ByteStore.read_write_disjoint _ (.inl (by simp))]
    exact read_stored_concat (p.initStores.take 1) 8 _
  · rw [ByteStore.read_write_disjoint _ (.inr (by simp)),
      ByteStore.read_write_disjoint _ (.inl (by simp))]
    exact read_stored_concat (p.initStores.take 2) 12 _

end CncRun

/-- **A capacity read back** from its 32 bits is itself, or no capacity. -/
theorem asUsize_ofNat {c : Nat} (h : validCapacity c = true) :
    if c < 2 ^ 31 then asUsize (.ofNat 32 c) = c else validCapacity (asUsize (.ofNat 32 c)) = false := by
  split_ifs with hlt
  · exact toNat_signExtend_ofNat hlt
  · obtain ⟨k, rfl⟩ := exists_of_isPowerOfTwo (Bool.and_eq_true_iff.mp h).2
    rw [Nat.pow_lt_pow_iff_right (by decide), Nat.not_lt] at hlt
    rcases Nat.eq_or_lt_of_le hlt with rfl | hk
    · decide
    · have hzero : BitVec.ofNat 32 (2 ^ k) = 0 :=
        BitVec.eq_of_toNat_eq (Nat.mod_eq_zero_of_dvd (Nat.pow_dvd_pow 2 hk))
      rw [hzero]
      decide

open CncRun

/-- **Whenever a client maps the file**, and whatever the driver and the clients store between its
loads: it is told to wait until `init` is done, and again once the driver is dropped; in between it gets
the capacities of the driver, with the tail of the broadcast buffer, exactly if they are below 2³¹. -/
theorem client_maps_ready (p : CncParams) (as bs cs : List CncAction) :
    let s := run step (start p) as
    let s' := run step s bs
    let s'' := run step s' cs
    ClientCnc.fromPtr s.memory s'.memory s''.memory =
      if s.pending ≠ [] ∨ s.dropped = true then .error .notReady
      else if p.toDriverCapacity < 2 ^ 31 ∧ p.toClientsCapacity < 2 ^ 31 then
        .ok ⟨p.toDriverCapacity, p.toClientsCapacity, .ofNat 64 (ofLE (s''.memory.read
          (toClientsOffset p.toDriverCapacity + p.toClientsCapacity) 8))⟩
      else .error .invalidCapacity := by
  intro s s' s''
  unfold ClientCnc.fromPtr
  dsimp only
  obtain ⟨done, hwritten⟩ := written_run p as
  by_cases hnone : s.pending ≠ [] ∨ s.dropped = true
  · rw [hwritten.version_eq_zero hnone, if_pos rfl, if_pos hnone]
  · have hlive := not_or.mp hnone
    have hpending : s.pending = [] := not_not.mp hlive.1
    -- the capacities are loaded later, when the driver may be gone
    obtain ⟨done', hwritten'⟩ : ∃ done, (run step s bs).Written p done := by
      change ∃ done, (run step (run step (start p) as) bs).Written p done
      rw [← run_append]
      exact written_run p _
    obtain ⟨-, hdriver, hclients⟩ := hwritten'.header (pending_run hpending bs)
    rw [(hwritten.header hpending).1 (Bool.not_eq_true _ ▸ hlive.2), hdriver, hclients,
      if_neg (by decide), if_neg (by decide), if_neg hnone]
    have hread := asUsize_ofNat p.toDriver_valid
    have hread' := asUsize_ofNat p.toClients_valid
    have hvalid := p.toDriver_valid
    have hvalid' := p.toClients_valid
    split_ifs at hread hread' <;> simp_all

end AeronRs
