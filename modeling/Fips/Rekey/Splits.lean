import Fips.Rekey.Epochs

set_option autoImplicit false

/-! An overwritten session that the other side may use splits the epochs: the network
still has what takes the other side there. -/

namespace Fips.Rekey
open Rollover Option

namespace Endpoint

structure Finished (p p' : Endpoint) (session : NoiseSession) : Prop where
  current : p'.entry.current = p.entry.current
  past : p'.past = p.past
  pending : p'.entry.pendingNewSession = some session
  kBit : p'.entry.currentKBit = p.entry.currentKBit
  sent : p.sent ⊆ p'.sent

variable {c : Config} {x : Side} {p q : Endpoint} {session : NoiseSession}

theorem handleSessionAck_finished (nowMs : Nat) (role : p.entry.rekeyHandshakeInitiator = true)
    (armed : p.entry.rekeyState = some (.initiator session.initiator)) :
    Finished p (p.handleSessionAck c nowMs session) session := by
  have finished : p.handleSessionAck c nowMs session =
      (p.mapEntry fun entry => entry.installRekeyInitiatorPendingSession session (.msg3 session) nowMs
        c.resendIntervalMs).send (.msg3 session) := by
    simp [handleSessionAck,SessionEntry.hasRekeyInProgress,armed,role,tryReadXkMessage2]
  rw [finished]
  exact ⟨rfl,rfl,rfl,rfl,List.subset_cons_self _ _⟩

theorem handleSessionMsg3_finished (nowMs : Nat) (role : p.entry.rekeyHandshakeInitiator = false)
    (armed : p.entry.rekeyState = some (.responder session)) :
    Finished p (p.handleSessionMsg3 nowMs session) session := by
  have finished : p.handleSessionMsg3 nowMs session =
      p.mapEntry fun entry => entry.installRekeyResponderPendingSession session nowMs := by
    simp [handleSessionMsg3,SessionEntry.hasRekeyInProgress,armed,role,readXkMessage3]
  rw [finished]
  exact ⟨rfl,rfl,rfl,rfl,List.Subset.refl _⟩

theorem receive_finished (l : Linked x p.party q.party) (nowMs : Nat) {m : Message}
    (finishes : p.entry.finishes m = true) :
    ∃ session, .msg3 session ∉ p.sent ∧ Finished p (p.receive c x nowMs m) session := by
  cases m with
  | setup e => cases finishes
  | frame session k => cases finishes
  | ack session =>
    simp only [SessionEntry.finishes,Bool.and_eq_true,any_eq_true,isSome_iff_exists] at finishes
    obtain ⟨role,handshake,armed,result,read⟩ := finishes
    obtain ⟨rfl,-⟩ := tryReadXkMessage2_eq_some read
    exact ⟨session,(l.here.armed_initiator _ armed).2.2 session rfl,
      handleSessionAck_finished nowMs role armed⟩
  | msg3 session =>
    simp only [SessionEntry.finishes,Bool.and_eq_true,any_eq_true,isSome_iff_exists,
      Bool.not_eq_true'] at finishes
    obtain ⟨role,handshake,armed,result,read⟩ := finishes
    obtain ⟨rfl,-⟩ := readXkMessage3_eq_some read
    exact ⟨session,l.here.unsent (l.here.armed_responder session armed).1,
      handleSessionMsg3_finished nowMs role armed⟩

theorem receiveFrame_current (nowMs : Nat) {k : Bool} (pending : q.entry.pendingNewSession = some session)
    (differ : k ≠ q.entry.currentKBit) : (q.receiveFrame nowMs session k).entry.current = session := by
  simp [receiveFrame,pending,SessionEntry.cutoverToAuthenticatedPendingEpoch,differ,
    SessionEntry.promotePending,SessionEntry.clearHandshakePayload,SessionEntry.clearRekeyMsg3Payload]

theorem exists_deliver (c : Config) (y : Side) {received : List Message} {m : Message} (mem : m ∈ received) :
    ∃ index, ∀ q, act c y received q (.deliver index 0) = q.receive c y 0 m := by
  obtain ⟨index,found⟩ := List.getElem?_of_mem mem
  refine ⟨index,?_⟩
  intro q
  simp only [act,found]

variable {z w : NoiseSession} {p' q' : Endpoint} (l : Linked x p.party q.party)
  (pending : p.entry.pendingNewSession = some z) (finished : Finished p p' w)
include l pending finished

theorem apart_of_current (differ : w ≠ z) (moved : q'.entry.current = z) :
    ¬ Endpoints.EpochsAgree ⟨p',q'⟩ := by
  have unused : ¬ p.party.Promoted z := (l.here.pending z pending).1
  rw [Endpoints.EpochsAgree,finished.current,finished.past,finished.pending,moved]
  rintro (same | ⟨-,previous⟩ | ⟨same,-⟩)
  · exact unused (.inl same.symm)
  · exact unused (.inr (List.mem_of_mem_head? previous))
  · exact differ (some.inj same)

theorem apart_of_behind (ahead : Party.Ahead p.party q.party) (finished' : Finished q q' z) :
    ¬ Endpoints.EpochsAgree ⟨p',q'⟩ := by
  have unused : ¬ p.party.Promoted z := (l.here.pending z pending).1
  have unused' : ¬ q.party.Promoted p.entry.current := (l.there.pending _ ahead.1).1
  rw [Endpoints.EpochsAgree,finished.current,finished'.current,finished'.past,finished'.pending]
  rintro (same | ⟨same,-⟩ | ⟨-,previous⟩)
  · exact unused' (.inl same)
  · exact unused (.inl (some.inj same))
  · exact unused' (.inr (List.mem_of_mem_head? previous))

/-- Once the pending session is replaced, the messages on the network can take the
other side to it. -/
theorem apart_reachable (c : Config) (consistent : q.Consistent) {k : Bool}
    (own : p.entry.pendingRekeyInitiator = true) (frame : .frame z k ∈ p.sent) (held : q.party.Holds z)
    (differ : w ≠ z) : ∃ deliveries : List Nat, ¬ Endpoints.EpochsAgree
      ⟨p',(deliveries.map (.deliver · 0)).foldl (act c x.other p'.sent) q⟩ := by
  obtain ⟨unused,msg3,-⟩ := l.here.pending z pending
  obtain ⟨probe,deliverProbe⟩ := exists_deliver c x.other (finished.sent frame)
  obtain ⟨third,deliverThird⟩ := exists_deliver c x.other (finished.sent (msg3 own))
  have bit : k = !p.entry.currentKBit := l.here.probe_kBit z k pending own frame
  have answered (armed : q.entry.rekeyState = some (.responder z)) :
      Finished q (act c x.other p'.sent q (.deliver third 0)) z := by
    rw [deliverThird]
    exact handleSessionMsg3_finished 0 (consistent.role z armed) armed
  by_cases moved : q.entry.current = z
  · exact ⟨[],apart_of_current l pending finished differ moved⟩
  rcases l.agree with ⟨-,same⟩ | ahead | ⟨behind,-⟩
  · have turns (q' : Endpoint) (pending' : q'.entry.pendingNewSession = some z)
        (kept : q'.entry.currentKBit = q.entry.currentKBit) :
        ¬ Endpoints.EpochsAgree ⟨p',act c x.other p'.sent q' (.deliver probe 0)⟩ := by
      refine apart_of_current l pending finished differ ?_
      rw [deliverProbe]
      apply receiveFrame_current 0 pending'
      have same : p.entry.currentKBit = q.entry.currentKBit := same
      rw [bit,kept,same]
      exact Bool.not_ne_self _
    rcases held with armed | pending' | current
    · exact ⟨[third,probe],turns _ (answered armed).pending (answered armed).kBit⟩
    · exact ⟨[probe],turns q pending' rfl⟩
    · exact absurd current moved
  · rcases held with armed | pending' | current
    · exact ⟨[third],apart_of_behind l pending finished ahead (answered armed)⟩
    · rw [ahead.1] at pending'
      exact absurd (.inl (some.inj pending').symm) unused
    · exact absurd current moved
  · have same : some q.entry.current = some z := behind.symm.trans pending
    exact absurd (some.inj same) moved

end Endpoint

namespace Endpoints

variable {s : Endpoints}

theorem EpochsAgree.symm (agree : s.EpochsAgree) : EpochsAgree ⟨s.b,s.a⟩ :=
  agree.imp Eq.symm Or.symm

theorem run_side (c : Config) (s : Endpoints) (x : Side) (deliveries : List Nat) :
    s.run c (deliveries.map fun index => (x,.deliver index 0)) = match x with
      | .a => { s with a := (deliveries.map (.deliver · 0)).foldl (act c .a s.b.sent) s.a }
      | .b => { s with b := (deliveries.map (.deliver · 0)).foldl (act c .b s.a.sent) s.b } := by
  induction deliveries generalizing s with
  | nil => cases x <;> rfl
  | cons index deliveries ih => cases x <;> exact ih (s.step c (_,.deliver index 0))

theorem overwrites_spec {p peer : Endpoint} {action : Action} (h : p.overwrites peer action = true) :
    ∃ index nowMs m, action = .deliver index nowMs ∧ peer.sent[index]? = some m ∧
      p.entry.finishes m = true ∧ Party.Exposed p.party peer.party := by
  cases action with
  | deliver index nowMs =>
    simp only [Endpoint.overwrites,Bool.and_eq_true,any_eq_true] at h
    obtain ⟨exposed,m,found,finishes⟩ := h
    exact ⟨index,nowMs,m,rfl,found,finishes,exposed_iff.1 exposed⟩
  | _ => cases h

theorem overwrites_apart (c : Config) {x : Side} {p peer : Endpoint} (l : Linked x p.party peer.party)
    (consistent : peer.Consistent) {action : Action} (h : p.overwrites peer action = true) :
    ∃ deliveries : List Nat, ¬ EpochsAgree ⟨act c x peer.sent p action,
      (deliveries.map (.deliver · 0)).foldl (act c x.other (act c x peer.sent p action).sent) peer⟩ := by
  obtain ⟨index,nowMs,m,rfl,found,finishes,z,k,pending,own,frame,held⟩ := overwrites_spec h
  obtain ⟨w,unsent,finished⟩ := Endpoint.receive_finished (c := c) l nowMs finishes
  have differ : w ≠ z := by
    rintro rfl
    exact unsent ((l.here.pending w pending).2.1 own)
  simp only [act,found]
  exact Endpoint.apart_reachable l pending finished c consistent own frame held differ

theorem Sound.splits (c : Config) (sound : s.Sound) {op : Side × Action} (lost : s.keeps op = false) :
    ∃ deliveries : List Nat,
      ¬ ((s.step c op).run c (deliveries.map fun index => (op.1.other,.deliver index 0))).EpochsAgree := by
  obtain ⟨x,action⟩ := op
  cases x with
  | a =>
    have lost : s.a.overwrites s.b action = true := by simpa [Endpoints.keeps] using lost
    obtain ⟨deliveries,apart⟩ := overwrites_apart c sound.linked sound.consistentB lost
    refine ⟨deliveries,?_⟩
    rw [run_side]
    exact apart
  | b =>
    have lost : s.b.overwrites s.a action = true := by simpa [Endpoints.keeps] using lost
    obtain ⟨deliveries,apart⟩ := overwrites_apart c sound.linked.symm sound.consistentA lost
    refine ⟨deliveries,?_⟩
    rw [run_side]
    exact apart ∘ EpochsAgree.symm

/-- The condition cannot be weakened: after its first violation the network can take the two sides apart, by
deliveries to the other side alone. -/
theorem run_splits (c : Config) (initiator : Side) (payloads : Side → Bool) (nextResendAtMs : Nat)
    (ops : List (Side × Action)) (keeps : keepsAll c (start initiator payloads nextResendAtMs) ops = true)
    (op : Side × Action) (lost : ((start initiator payloads nextResendAtMs).run c ops).keeps op = false) :
    ∃ deliveries : List Nat, ¬ ((start initiator payloads nextResendAtMs).run c
      (ops ++ op :: deliveries.map fun index => (op.1.other,.deliver index 0))).EpochsAgree := by
  have sound := (start_sound initiator payloads nextResendAtMs).run keeps
  obtain ⟨deliveries,split⟩ := sound.splits c lost
  refine ⟨deliveries,?_⟩
  rw [run,List.foldl_append]
  exact split

theorem run_splits_restart : ∃ deliveries : List Nat,
    ¬ ((start .a (fun _ => false) 0).run sampleConfig (initiatorRestarts.take 9 ++
      (.a,.deliver 0 51200) :: deliveries.map fun index => (.b,.deliver index 0))).EpochsAgree :=
  run_splits sampleConfig .a (fun _ => false) 0 (initiatorRestarts.take 9) (by decide)
    (.a,.deliver 0 51200) (by decide)

end Endpoints

end Fips.Rekey
