import Fips.Dataplane.Owner

set_option autoImplicit false

/-! What an owner knows of its reservations in flight, and which functions touch it. -/

namespace Fips.Dataplane

structure Flight where
  owner : OwnerId
  inFlightLimit : Nat
  inFlight : Nat
  bulkInFlight : Nat
  backgroundInFlight : Nat
  nextOrder : Nat
  nextRetire : Nat
  pending : List OwnerRetireSlot

namespace OwnerState

def flight (s : OwnerState) : Flight :=
  ⟨s.owner,s.inFlightLimit,s.inFlight,s.bulkInFlight,s.backgroundInFlight,s.nextOrder,s.nextRetire,s.pending⟩

variable (s : OwnerState)

inductive EpochOp where
  | rekey (generation : Nat)
  | applyLiveConfig (config : OwnerConfig)
  | installSession (protocol : PacketProtocol) (config : OwnerConfig) (keys : OwnerCryptoKeys)
  | installPendingEpoch (protocol : PacketProtocol) (pendingKBit : Bool) (openKey : AeadKey)
    (sealKey : Option AeadKey)
      (authority : Option SendCounterAuthority)
  | clearPendingReceiveEpoch (protocol : PacketProtocol)
  | setEpoch (protocol : PacketProtocol) (currentKBit : Bool) (previousDrainingKBit : Option Bool)
  | confirmFmpPendingReceiveEpoch (receivedKBit : Bool)

def execEpoch (counters : SendCounters) : EpochOp → OwnerState
  | .rekey generation => s.rekey generation
  | .applyLiveConfig config => s.applyLiveConfig counters config
  | .installSession protocol config keys => (s.installSession protocol counters config keys).2
  | .installPendingEpoch protocol kBit openKey sealKey authority =>
    (s.installPendingEpoch protocol kBit openKey sealKey authority).2
  | .clearPendingReceiveEpoch protocol => (s.clearPendingReceiveEpoch protocol).2
  | .setEpoch protocol current previous => (s.setEpoch protocol current previous).2
  | .confirmFmpPendingReceiveEpoch kBit => (s.confirmFmpPendingReceiveEpoch kBit).2

section Sessions

variable (protocol : PacketProtocol)

@[simp] theorem setEpoch_flight (current : Bool) (previous : Option Bool) :
    (s.setEpoch protocol current previous).2.flight = s.flight := by
  unfold setEpoch
  by_cases own : s.owner.protocol = protocol
  · simp only [if_pos own]
    split_ifs <;> rfl
  · rw [if_neg own]

@[simp] theorem applyLiveConfig_flight (counters : SendCounters) (config : OwnerConfig) :
    (s.applyLiveConfig counters config).flight = s.flight := by
  unfold applyLiveConfig
  have base : (if config.generation ≠ s.generation then s.rekey config.generation else s).flight =
      s.flight := by
    split_ifs <;> rfl
  cases config.sendCounterAuthority <;> cases config.fmpSendHeaders <;> cases config.currentKBit <;>
    simp only [setEpoch_flight] <;> exact base

@[simp] theorem installSession_flight (counters : SendCounters) (config : OwnerConfig)
    (keys : OwnerCryptoKeys) : (s.installSession protocol counters config keys).2.flight = s.flight := by
  unfold installSession
  by_cases own : s.owner.protocol = protocol
  · rw [if_neg (not_not.2 own)]
    have base := s.applyLiveConfig_flight counters config
    simp only
    generalize (if config.generation ≠ s.generation ∧
      s.isPendingSession config.sendCounterAuthority = true then _ else _) =
      promoted
    generalize (if config.generation ≠ s.generation ∧ config.previousDrainingKBit.isSome = true then _
      else _) = previous
    cases promoted <;> cases previous <;> simp only <;> (try split_ifs) <;> exact base
  · rw [if_pos own]

theorem installPendingEpoch_flight (kBit : Bool) (openKey : AeadKey) (sealKey : Option AeadKey)
    (authority : Option SendCounterAuthority) :
    (s.installPendingEpoch protocol kBit openKey sealKey authority).2.flight = s.flight := by
  unfold installPendingEpoch
  split_ifs <;> rfl

theorem clearPendingReceiveEpoch_flight :
    (s.clearPendingReceiveEpoch protocol).2.flight = s.flight := by
  unfold clearPendingReceiveEpoch
  split_ifs <;> rfl

end Sessions

theorem confirmFmpPendingReceiveEpoch_flight (kBit : Bool) :
    (s.confirmFmpPendingReceiveEpoch kBit).2.flight = s.flight := by
  unfold confirmFmpPendingReceiveEpoch
  split_ifs <;> rfl

theorem execEpoch_flight (counters : SendCounters) (op : EpochOp) :
    (s.execEpoch counters op).flight = s.flight := by
  cases op with
  | rekey generation => rfl
  | applyLiveConfig config => exact s.applyLiveConfig_flight counters config
  | installSession protocol config keys => exact s.installSession_flight protocol counters config keys
  | installPendingEpoch protocol kBit openKey sealKey authority =>
    exact s.installPendingEpoch_flight protocol kBit openKey sealKey authority
  | clearPendingReceiveEpoch protocol => exact s.clearPendingReceiveEpoch_flight protocol
  | setEpoch protocol current previous => exact s.setEpoch_flight protocol current previous
  | confirmFmpPendingReceiveEpoch kBit => exact s.confirmFmpPendingReceiveEpoch_flight kBit

theorem setReplayWindow_flight (window : ReplayWindow) (epoch : DataplaneReceiveEpoch) :
    (s.setReplayWindow window epoch).flight = s.flight := by cases epoch <;> rfl

theorem completeReplayReservation_flight (reservation : OwnerReservation) (authenticated : Bool) :
    (s.completeReplayReservation reservation authenticated).2.flight = s.flight := by
  unfold completeReplayReservation
  cases reservation.receiveEpoch with
  | none => rfl
  | some epoch =>
    simp only
    generalize (if reservation.generation ≠ s.generation then _ else some epoch) = mapped
    cases mapped with
    | none => rfl
    | some identity =>
      simp only
      split_ifs
      · rfl
      · rfl
      · split
        · split_ifs <;> exact setReplayWindow_flight _ _ _
        · rfl

theorem retireReadyCompletion_flight (compact : Bool) (completion : CryptoCompletion) :
    (s.retireReadyCompletion compact completion).2.flight = s.flight ∧
      (s.retireReadyCompletion compact completion).1.reservation = completion.reservation := by
  unfold retireReadyCompletion
  cases completion.result with
  | opened endpointData =>
    have same := s.completeReplayReservation_flight completion.reservation true
    simp only
    split_ifs <;> exact ⟨same,rfl⟩
  | sealed => exact ⟨s.completeReplayReservation_flight _ _,rfl⟩
  | outbound => exact ⟨s.completeReplayReservation_flight _ _,rfl⟩
  | failed => exact ⟨s.completeReplayReservation_flight _ _,rfl⟩

theorem retireReadyCompletions_flight (compact : Bool) (completions : List CryptoCompletion) :
    ∀ s : OwnerState,
    (retireReadyCompletions compact s completions).2.flight = s.flight ∧
      (retireReadyCompletions compact s completions).1.map (·.reservation) =
        completions.map (·.reservation) := by
  induction completions with
  | nil => exact fun s => ⟨rfl,rfl⟩
  | cons completion rest ih =>
    intro s
    obtain ⟨same,here⟩ := s.retireReadyCompletion_flight compact completion
    obtain ⟨same',there⟩ := ih (s.retireReadyCompletion compact completion).2
    refine ⟨same'.trans same,?_⟩
    simp only [retireReadyCompletions,List.map_cons,here]
    rw [there]

structure Admits (packetClass : PacketClass) (r : OwnerReservation) (s' : OwnerState) : Prop where
  allowed : s.canReserveClass packetClass = true
  owner : r.owner = s.owner
  generation : r.generation = s.generation
  order : r.order = s.nextOrder
  lane : r.lane = packetClass.lane
  flight : s'.flight = (s.reserveClass packetClass).takeOrder.flight

variable {s}

theorem reserve_admits {packet : SocketPacket} {seq : Nat} {r : OwnerReservation}
    {epoch : DataplaneReceiveEpoch} {s' : OwnerState} (ok : s.reserve packet seq = .ok ((r,epoch),s')) :
    s.Admits packet.packetClass r s' := by
  unfold reserve at ok
  cases known : s.packetReceiveEpoch packet with
  | none => simp only [known] at ok; cases ok
  | some receiveEpoch =>
    simp only [known] at ok
    by_cases allowed : s.canReserveClass packet.packetClass = false
    · rw [if_pos allowed] at ok
      cases ok
    · rw [if_neg allowed] at ok
      cases held : s.replayWindowForEpoch (s.receiveEpochOf packet receiveEpoch) with
      | none => simp only [held] at ok; cases ok
      | some window =>
        simp only [held] at ok
        split_ifs at ok
        obtain ⟨same,rfl⟩ := Prod.mk.inj (Except.ok.inj ok)
        obtain ⟨rfl,rfl⟩ := Prod.mk.inj same
        exact ⟨eq_true_of_ne_false allowed,rfl,rfl,rfl,rfl,rfl⟩

theorem refreshOutbound_packetClass {packet packet' : OutboundPacket}
    (ok : s.refreshOutbound packet = some packet') :
    packet'.packetClass = packet.packetClass := by
  unfold refreshOutbound at ok
  by_cases now : packet.generation = s.generation
  · rw [if_pos now] at ok
    exact congrArg OutboundPacket.packetClass (Option.some.inj ok).symm
  · rw [if_neg now] at ok
    split at ok
    · cases ok
    cases wire : packet.wire with
    | fmp receiverIdx flags =>
      simp only [wire,Option.map_eq_some_iff] at ok
      obtain ⟨headers,-,rfl⟩ := ok
      rfl
    | fsp flags =>
      simp only [wire] at ok
      cases ok
      rfl

theorem reserveSendCounter_flight {counters counters' : SendCounters}
    {epoch : OutboundSendEpoch} {counter : Nat} {s' : OwnerState}
    (ok : s.reserveSendCounter counters epoch = .ok (counter,s',counters')) : s'.flight = s.flight := by
  unfold reserveSendCounter at ok
  cases epoch with
  | pending =>
    simp only at ok
    split at ok
    · cases ok
    · split at ok
      · cases ok
      · cases ok
        rfl
  | current =>
    simp only at ok
    split at ok
    · split at ok
      · cases ok
      · cases ok
        rfl
    · cases ok
      rfl

theorem reserveOutbound_admits {counters counters' : SendCounters}
    {packet packet' : OutboundPacket} {seq : Nat} {r : OwnerReservation} {s' : OwnerState}
    (ok : s.reserveOutbound counters packet seq = .ok ((r,packet'),s',counters')) :
    s.Admits packet.packetClass r s' := by
  unfold reserveOutbound at ok
  cases refreshed : s.refreshOutbound packet with
  | none => simp only [refreshed] at ok; cases ok
  | some sent =>
    simp only [refreshed] at ok
    by_cases allowed : s.canReserveClass sent.packetClass = false
    · rw [if_pos allowed] at ok
      cases ok
    · split_ifs at ok
      cases counted : s.reserveSendCounter counters sent.sendEpoch with
      | error e => simp only [counted] at ok; cases ok
      | ok result =>
        have same := reserveSendCounter_flight counted
        simp only [counted] at ok
        cases ok
        rw [← refreshOutbound_packetClass refreshed]
        refine ⟨eq_true_of_ne_false allowed,rfl,rfl,rfl,rfl,?_⟩
        simp only [flight,Flight.mk.injEq,reserveClass,takeOrder] at same ⊢
        obtain ⟨owner,limit,inFlight,bulk,background,order,retire,pending⟩ := same
        exact ⟨owner,limit,by rw [inFlight],by rw [bulk],by rw [background],by rw [order],retire,pending⟩

end OwnerState

end Fips.Dataplane
