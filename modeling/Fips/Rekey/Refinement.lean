import Fips.Rekey.Endpoints

set_option autoImplicit false

/-! Every action of an endpoint is a move of the rollover protocol. -/

namespace Fips.Rekey
open Rollover SessionEntry Endpoint

/-- The message finishes the handshake that is armed. -/
def SessionEntry.finishes (s : SessionEntry) : Message → Bool
  | .ack session =>
    s.rekeyHandshakeInitiator && s.rekeyState.any fun handshake =>
      (tryReadXkMessage2 handshake session).isSome
  | .msg3 session =>
    !s.rekeyHandshakeInitiator && s.rekeyState.any fun handshake => (readXkMessage3 handshake session).isSome
  | .setup _ => false
  | .frame _ _ => false

namespace Endpoint

def party (p : Endpoint) : Party where
  current := p.entry.current
  past := p.past
  pending := p.entry.pendingNewSession
  own := p.entry.pendingRekeyInitiator
  armed := p.entry.rekeyState
  kBit := p.entry.currentKBit
  drawn := p.drawn
  sent := p.sent

/-- The messages kept for another send have been sent before, and the role of an armed
handshake is recorded. -/
structure Consistent (p : Endpoint) : Prop where
  handshake : ∀ m, p.entry.handshakePayload = some m → m ∈ p.sent
  msg3 : ∀ m, p.entry.rekeyMsg3Payload = some m → m ∈ p.sent
  role : ∀ session, p.entry.rekeyState = some (.responder session) → p.entry.rekeyHandshakeInitiator = false

def KeepsPending (p p' : Endpoint) : Prop :=
  p'.entry.pendingNewSession = p.entry.pendingNewSession ∨ p.entry.pendingNewSession = some p'.entry.current

/-- The step from `p` to `p'` is a move of side `x`, and only a message that finishes a handshake replaces
the pending session. -/
structure Refines (x : Side) (received : List Message) (unfinished : Prop) (p p' : Endpoint) : Prop where
  move : Move x received p.party p'.party
  consistent : p'.Consistent
  keeps : unfinished → p.KeepsPending p'

variable {c : Config} {x : Side} {received : List Message} {unfinished : Prop} {p : Endpoint}

theorem Consistent.refines (h : p.Consistent) : Refines x received unfinished p p :=
  ⟨.idle _,h,fun _ => .inl rfl⟩

theorem Consistent.send (h : p.Consistent) (m : Message) : (p.send m).Consistent :=
  ⟨fun m' kept => List.mem_cons_of_mem _ (h.handshake m' kept),fun m' kept =>
    List.mem_cons_of_mem _ (h.msg3 m' kept),h.role⟩

variable {entry : SessionEntry}

section Handshakes

variable (h : p.Consistent)
include h

theorem Consistent.refines_entry (view : ({ p with entry } : Endpoint).party = p.party)
    (handshake : entry.handshakePayload = p.entry.handshakePayload ∨ entry.handshakePayload = none)
    (msg3 : entry.rekeyMsg3Payload = p.entry.rekeyMsg3Payload ∨ entry.rekeyMsg3Payload = none)
    (role : ∀ session, entry.rekeyState = some (.responder session) → entry.rekeyHandshakeInitiator = false) :
    Refines x received unfinished p { p with entry } := by
  refine ⟨by rw [view]; exact .idle _,⟨?_,?_,role⟩,fun _ => .inl (congrArg Party.pending view)⟩
  · intro m kept
    rcases handshake with same | none
    · exact h.handshake m (same ▸ kept)
    · rw [none] at kept
      cases kept
  · intro m kept
    rcases msg3 with same | none
    · exact h.msg3 m (same ▸ kept)
    · rw [none] at kept
      cases kept

theorem Consistent.refines_resend {m : Message} (mem : m ∈ p.sent)
    (view : ({ p with entry } : Endpoint).party = p.party)
    (handshake : entry.handshakePayload = p.entry.handshakePayload)
    (msg3 : entry.rekeyMsg3Payload = p.entry.rekeyMsg3Payload)
    (role : ∀ session, entry.rekeyState = some (.responder session) → entry.rekeyHandshakeInitiator = false) :
    Refines x received unfinished p { p with entry, sent := m :: p.sent } := by
  have same : ({ p with entry, sent := m :: p.sent } : Endpoint).party =
    { p.party with sent := m :: p.party.sent } := by
    rw [← view]
    rfl
  refine ⟨by rw [same]; exact .resend _ m mem,⟨?_,?_,role⟩,fun _ => .inl (congrArg Party.pending view)⟩
  · intro m' kept
    exact (h.send m).handshake m' (handshake ▸ kept)
  · intro m' kept
    exact (h.send m).msg3 m' (msg3 ▸ kept)

theorem refines_initiateSessionRekey (nowMs : Nat) :
    Refines x received unfinished p (p.initiateSessionRekey c x nowMs) := by
  unfold initiateSessionRekey
  split
  · refine ⟨.initiate p.party,⟨?_,(h.send _).msg3,?_⟩,fun _ => .inl rfl⟩
    · intro m kept
      cases kept
      exact List.mem_cons_self
    · intro session armed
      cases armed
  · exact h.refines

theorem refines_armResponder
    (view : ({ p with entry } : Endpoint).party = { p.party with armed := entry.rekeyState })
    (msg3 : entry.rekeyMsg3Payload = p.entry.rekeyMsg3Payload) (nowMs : Nat) {e : Ephemeral}
    (mem : .setup e ∈ received) :
    Refines x received unfinished p (({ p with entry } : Endpoint).armResponder c x nowMs e) := by
  have armed : (({ p with entry } : Endpoint).armResponder c x nowMs e).party =
      { ({ p with entry } : Endpoint).party with
        armed := some (.responder ⟨e,⟨x,p.drawn⟩⟩)
        drawn := p.drawn + 1
        sent := .ack ⟨e,⟨x,p.drawn⟩⟩ :: p.sent } := rfl
  refine ⟨?_,⟨?_,?_,fun _ _ => rfl⟩,fun _ => .inl (congrArg Party.pending view)⟩
  · rw [armed,view]
    exact .respond p.party e mem
  · intro m kept
    cases kept
    exact List.mem_cons_self
  · intro m kept
    exact (h.send _).msg3 m (msg3 ▸ kept)

theorem refines_abandonHandshake : Refines x received unfinished p (p.mapEntry abandonHandshake) := by
  refine ⟨.disarm p.party,⟨?_,h.msg3,fun _ _ => rfl⟩,fun _ => .inl rfl⟩
  intro m kept
  cases kept

theorem refines_handleSessionSetup (nowMs : Nat) {e : Ephemeral} (mem : .setup e ∈ received) :
    Refines x received unfinished p (p.handleSessionSetup c x nowMs e) := by
  unfold handleSessionSetup
  split
  · exact h.refines
  split
  · exact h.refines
  split
  · cases kept : p.entry.duplicateRekeyResponderAck with
    | some payload =>
      have sent : payload ∈ p.sent := by
        unfold duplicateRekeyResponderAck at kept
        split at kept
        · exact h.handshake payload kept
        · cases kept
      exact h.refines_resend sent rfl rfl rfl h.role
    | none =>
      simp only
      split
      · exact h.refines
      · exact refines_armResponder h rfl rfl nowMs mem
  · split
    · exact h.refines
    · exact refines_armResponder h rfl rfl nowMs mem

end Handshakes

variable {session : NoiseSession}

theorem tryReadXkMessage2_eq_some {handshake : HandshakeState} {result : NoiseSession}
    (h : tryReadXkMessage2 handshake session = some result) :
    handshake = .initiator session.initiator ∧ result = session := by
  cases handshake with
  | initiator e =>
    simp only [tryReadXkMessage2,Option.ite_none_right_eq_some,Option.some.injEq] at h
    exact ⟨by rw [h.1],h.2.symm⟩
  | responder own => cases h

theorem readXkMessage3_eq_some {handshake : HandshakeState} {result : NoiseSession}
    (h : readXkMessage3 handshake session = some result) :
    handshake = .responder session ∧ result = session := by
  cases handshake with
  | initiator e => cases h
  | responder own =>
    simp only [readXkMessage3,Option.ite_none_right_eq_some,Option.some.injEq] at h
    exact ⟨by rw [h.1],h.2.symm⟩

theorem refines_completeInitiator (nowMs : Nat)
    (armed : p.entry.rekeyState = some (.initiator session.initiator))
    (role : p.entry.rekeyHandshakeInitiator = true) (mem : .ack session ∈ received)
    (same : unfinished → p.entry.finishes (.ack session) = false) :
    Refines x received unfinished p
      ((p.mapEntry fun entry => entry.installRekeyInitiatorPendingSession session (.msg3 session) nowMs
        c.resendIntervalMs).send (.msg3 session)) := by
  have move : Move x received p.party _ := .completeInitiator p.party session armed mem
  refine ⟨?_,⟨?_,?_,fun _ _ => rfl⟩,fun calm => ?_⟩
  · rw [← role] at move
    exact move
  · intro m kept
    cases kept
  · intro m kept
    cases kept
    exact List.mem_cons_self
  · simpa [finishes,role,armed,tryReadXkMessage2] using same calm

theorem refines_completeResponder (nowMs : Nat) (armed : p.entry.rekeyState = some (.responder session))
    (role : p.entry.rekeyHandshakeInitiator = false) (mem : .msg3 session ∈ received)
    (same : unfinished → p.entry.finishes (.msg3 session) = false) :
    Refines x received unfinished p
      (p.mapEntry fun entry => entry.installRekeyResponderPendingSession session nowMs) := by
  have move : Move x received p.party _ := .completeResponder p.party session armed mem
  refine ⟨?_,⟨?_,?_,fun _ _ => rfl⟩,fun calm => ?_⟩
  · rw [← role] at move
    exact move
  · intro m kept
    cases kept
  · intro m kept
    cases kept
  · simpa [finishes,role,armed,readXkMessage3] using same calm

theorem refines_handleSessionAck (h : p.Consistent) (nowMs : Nat) (mem : .ack session ∈ received)
    (same : unfinished → p.entry.finishes (.ack session) = false) :
    Refines x received unfinished p (p.handleSessionAck c nowMs session) := by
  unfold handleSessionAck
  split
  · rename_i initiating
    have role : p.entry.rekeyHandshakeInitiator = true := (Bool.and_eq_true _ _ ▸ initiating).2
    cases armed : p.entry.rekeyState with
    | none => exact h.refines
    | some handshake =>
      cases read : tryReadXkMessage2 handshake session with
      | none =>
        simp only [read]
        refine h.refines_entry ?_ (.inl rfl) (.inl rfl) ?_
        · simp [party,setRekeyState,armed]
        · intro own responding
          cases responding
          rw [h.role own armed] at role
          cases role
      | some result =>
        obtain ⟨rfl,rfl⟩ := tryReadXkMessage2_eq_some read
        simp only [read]
        exact refines_completeInitiator nowMs armed role mem same
  · cases kept : p.entry.handshakePayload with
    | none => exact h.refines
    | some payload => exact h.refines_resend (h.handshake payload kept) rfl rfl rfl h.role

theorem refines_handleSessionMsg3 (h : p.Consistent) (nowMs : Nat) (mem : .msg3 session ∈ received)
    (same : unfinished → p.entry.finishes (.msg3 session) = false) :
    Refines x received unfinished p (p.handleSessionMsg3 nowMs session) := by
  unfold handleSessionMsg3
  split
  · rename_i responding
    have role : p.entry.rekeyHandshakeInitiator = false := by
      simp only [Bool.and_eq_true,Bool.not_eq_true'] at responding
      exact responding.2
    cases armed : p.entry.rekeyState with
    | none => exact h.refines
    | some handshake =>
      cases read : readXkMessage3 handshake session with
      | none =>
        simp only [read]
        exact refines_abandonHandshake h
      | some result =>
        obtain ⟨rfl,rfl⟩ := readXkMessage3_eq_some read
        simp only [read]
        exact refines_completeResponder nowMs armed role mem same
  · exact h.refines

theorem refines_promote (nowMs : Nat) {kBit : Bool} (pending : p.entry.pendingNewSession = some session)
    (differ : kBit ≠ p.entry.currentKBit) (mem : .frame session kBit ∈ received) :
    Refines x received unfinished p
      { p with
        entry := (p.entry.promotePending nowMs).clearRekeyMsg3Payload
        past := p.entry.current :: p.past } := by
  have move : Move x received p.party _ := .promote p.party session kBit pending mem differ
  refine ⟨?_,⟨?_,?_,?_⟩,fun _ => .inr ?_⟩
  · simpa [party,promotePending,pending,clearHandshakePayload,
      clearRekeyMsg3Payload] using move
  · intro m kept
    simp [promotePending,pending,clearHandshakePayload,
      clearRekeyMsg3Payload] at kept
  · intro m kept
    cases kept
  · intro session armed
    simp [promotePending,pending,clearHandshakePayload,
      clearRekeyMsg3Payload] at armed
  · simp [promotePending,pending,clearHandshakePayload,clearRekeyMsg3Payload]

variable (h : p.Consistent)
include h

theorem refines_receiveFrame (nowMs : Nat) {kBit : Bool} (mem : .frame session kBit ∈ received) :
    Refines x received unfinished p (p.receiveFrame nowMs session kBit) := by
  unfold receiveFrame
  split
  · rename_i pending
    by_cases same : kBit = p.entry.currentKBit
    · simp only [cutoverToAuthenticatedPendingEpoch,pending,same,beq_self_eq_true]
      exact h.refines
    · have cut : p.entry.cutoverToAuthenticatedPendingEpoch nowMs kBit =
          some (p.entry.promotePending nowMs).clearRekeyMsg3Payload := by
        simp [cutoverToAuthenticatedPendingEpoch,pending,same]
      rw [cut]
      exact refines_promote nowMs pending same mem
  · exact h.refines

theorem refines_receive (nowMs : Nat) {m : Message} (mem : m ∈ received)
    (same : unfinished → p.entry.finishes m = false) :
    Refines x received unfinished p (p.receive c x nowMs m) := by
  cases m with
  | setup e => exact refines_handleSessionSetup h nowMs mem
  | ack session => exact refines_handleSessionAck h nowMs mem same
  | msg3 session => exact refines_handleSessionMsg3 h nowMs mem same
  | frame session kBit => exact refines_receiveFrame h nowMs mem

theorem refines_probePendingEpoch (nowMs : Nat) :
    Refines x received unfinished p (p.probePendingEpoch c nowMs) := by
  unfold probePendingEpoch
  cases pending : p.entry.pendingNewSession with
  | none => exact h.refines
  | some session =>
    simp only
    split
    · rename_i due
      have own : p.entry.pendingRekeyInitiator = true := by
        simp only [Bool.and_eq_true] at due
        exact due.1.2
      exact ⟨.probe p.party session pending own,{ h.send _ with },fun _ => .inl rfl⟩
    · exact h.refines

theorem refines_sendData : Refines x received unfinished p p.sendData :=
  ⟨.data p.party,h.send _,fun _ => .inl rfl⟩

theorem refines_completeDrain (nowMs : Nat) :
    Refines x received unfinished p (p.completeDueSessionRekeyDrain c nowMs) := by
  unfold completeDueSessionRekeyDrain
  split
  · exact h.refines_entry rfl (.inl rfl) (.inl rfl) h.role
  · exact h.refines

theorem refines_resendHandshake (nowMs nextMs : Nat) :
    Refines x received unfinished p (p.resendHandshake c nowMs nextMs) := by
  unfold resendHandshake
  cases kept : p.entry.handshakePayload with
  | none => exact h.refines
  | some payload =>
    simp only
    split
    · exact h.refines_resend (h.handshake payload kept) rfl rfl rfl h.role
    · exact h.refines

theorem refines_exhaustHandshake (nowMs : Nat) :
    Refines x received unfinished p (p.exhaustEstablishedHandshakeResendBudget c nowMs) := by
  unfold exhaustEstablishedHandshakeResendBudget
  split
  · cases busy : p.entry.hasRekeyInProgress with
    | true =>
      simp only [mapEntry,busy]
      exact refines_abandonHandshake h
    | false =>
      simp only [mapEntry,busy]
      exact h.refines_entry rfl (.inl rfl) (.inl rfl) h.role
  · exact h.refines

theorem refines_resendRekeyMsg3 (nowMs nextMs : Nat) :
    Refines x received unfinished p (p.resendRekeyMsg3 c nowMs nextMs) := by
  unfold resendRekeyMsg3
  cases kept : p.entry.rekeyMsg3Payload with
  | none => exact h.refines
  | some payload =>
    simp only
    split
    · exact h.refines_resend (h.msg3 payload kept) rfl rfl rfl h.role
    · exact h.refines

theorem refines_exhaustRekeyMsg3 (nowMs : Nat) :
    Refines x received unfinished p (p.exhaustDueRekeyMsg3ResendBudget c nowMs) := by
  unfold exhaustDueRekeyMsg3ResendBudget
  split
  · simp only [mapEntry,stopRekeyMsg3Retransmit]
    split
    · exact h.refines_entry rfl (.inl rfl) (.inr rfl) h.role
    · exact h.refines_entry rfl (.inl rfl) (.inr rfl) h.role
  · exact h.refines

theorem refines_confirmRetransmits :
    Refines x received unfinished p (p.mapEntry clearDataplaneConfirmedFspRetransmits) := by
  unfold mapEntry clearDataplaneConfirmedFspRetransmits
  by_cases msg3 : (p.entry.rekeyMsg3Payload.isSome && p.entry.pendingNewSession.isNone) = true
  · simp only [msg3,if_true]
    split
    · exact h.refines_entry rfl (.inr rfl) (.inr rfl) h.role
    · exact h.refines_entry rfl (.inl rfl) (.inr rfl) h.role
  · simp only [msg3,Bool.false_eq_true,if_false]
    split
    · exact h.refines_entry rfl (.inr rfl) (.inl rfl) h.role
    · exact h.refines_entry rfl (.inl rfl) (.inl rfl) h.role

end Endpoint

theorem act_refines (c : Config) (x : Side) (received : List Message) {p : Endpoint} (h : p.Consistent)
    (action : Action) : Endpoint.Refines x received
      (∀ index nowMs, action = .deliver index nowMs → received[index]?.any p.entry.finishes = false) p
      (act c x received p action) := by
  cases action with
  | initiate nowMs => exact refines_initiateSessionRekey h nowMs
  | deliver index nowMs =>
    simp only [act]
    cases found : received[index]? with
    | none => exact h.refines
    | some m =>
      refine refines_receive h nowMs (List.mem_of_getElem? found) fun unfinished => ?_
      simpa [found] using unfinished index nowMs rfl
  | data => exact refines_sendData h
  | probe nowMs => exact refines_probePendingEpoch h nowMs
  | drain nowMs => exact refines_completeDrain h nowMs
  | resendHandshake nowMs nextMs => exact refines_resendHandshake h nowMs nextMs
  | exhaustHandshake nowMs => exact refines_exhaustHandshake h nowMs
  | resendMsg3 nowMs nextMs => exact refines_resendRekeyMsg3 h nowMs nextMs
  | exhaustMsg3 nowMs => exact refines_exhaustRekeyMsg3 h nowMs
  | confirmRetransmits => exact refines_confirmRetransmits h

end Fips.Rekey
