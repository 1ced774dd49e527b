import Fips.Rekey.Refinement

set_option autoImplicit false

/-! When the two ends of a session stay on the same epoch. -/

namespace Fips.Rekey
open Rollover

/-- The endpoint has the session as armed responder handshake, pending or current. -/
def Endpoint.holds (p : Endpoint) (session : NoiseSession) : Bool :=
  p.entry.rekeyState = some (.responder session) ∨ p.entry.pendingNewSession = some session ∨
    p.entry.current = session

/-- The endpoint has a pending session that it initiated and has sent frames of, and
the peer holds it. -/
def Endpoint.exposed (p peer : Endpoint) : Bool :=
  match p.entry.pendingNewSession with
  | none => false
  | some session =>
    p.entry.pendingRekeyInitiator && peer.holds session && p.sent.any fun
      | .frame sent _ => sent = session
      | _ => false

/-- The action finishes a handshake of an exposed endpoint. -/
def Endpoint.overwrites (p peer : Endpoint) : Action → Bool
  | .deliver index _ => p.exposed peer && (peer.sent[index]?).any p.entry.finishes
  | _ => false

namespace Endpoints

/-- The current sessions are the same, or one side is on the session that the other
has pending and has come from the one that the other is on. -/
def EpochsAgree (s : Endpoints) : Prop :=
  s.a.entry.current = s.b.entry.current ∨
    s.b.entry.pendingNewSession = some s.a.entry.current ∧ s.a.past.head? = some s.b.entry.current ∨
    s.a.entry.pendingNewSession = some s.b.entry.current ∧ s.b.past.head? = some s.a.entry.current

instance (s : Endpoints) : Decidable s.EpochsAgree := inferInstanceAs (Decidable (_ ∨ _ ∧ _ ∨ _ ∧ _))

/-- The step overwrites no pending session that the other side may use. -/
def keeps (s : Endpoints) : Side × Action → Bool
  | (.a,action) => !s.a.overwrites s.b action
  | (.b,action) => !s.b.overwrites s.a action

def keepsAll (c : Config) : Endpoints → List (Side × Action) → Bool
  | _,[] => true
  | s,op :: ops => s.keeps op && keepsAll c (s.step c op) ops

structure Sound (s : Endpoints) : Prop where
  linked : Linked .a s.a.party s.b.party
  consistentA : s.a.Consistent
  consistentB : s.b.Consistent

theorem Sound.epochsAgree {s : Endpoints} (sound : s.Sound) : s.EpochsAgree := by
  rcases sound.linked.agree with ⟨same,-⟩ | ⟨pending,-,previous,-⟩ | ⟨pending,-,previous,-⟩
  · exact .inl same
  · exact .inr (.inl ⟨pending,previous⟩)
  · exact .inr (.inr ⟨pending,previous⟩)

theorem exposed_iff {p peer : Endpoint} : p.exposed peer = true ↔ Party.Exposed p.party peer.party := by
  unfold Endpoint.exposed Endpoint.holds
  constructor
  · intro exposed
    split at exposed
    · cases exposed
    next session pending =>
      simp only [Bool.and_eq_true,decide_eq_true_eq,List.any_eq_true] at exposed
      obtain ⟨⟨own,held⟩,sent,mem,frame⟩ := exposed
      cases sent with
      | frame sent k =>
        obtain rfl : sent = session := of_decide_eq_true frame
        exact ⟨sent,k,pending,own,mem,held⟩
      | _ => cases frame
  · rintro ⟨session,k,pending,own,mem,held⟩
    have pending : p.entry.pendingNewSession = some session := pending
    simp only [pending,Bool.and_eq_true,decide_eq_true_eq,List.any_eq_true]
    exact ⟨⟨own,held⟩,_,mem,decide_eq_true rfl⟩

theorem unfinished_of_keeps {p peer : Endpoint} {action : Action} (keeps : p.overwrites peer action = false)
    (h : Party.Exposed p.party peer.party) (index nowMs : Nat) (same : action = .deliver index nowMs) :
    peer.sent[index]?.any p.entry.finishes = false := by
  subst same
  simpa [Endpoint.overwrites,exposed_iff.2 h] using keeps

theorem Sound.step {c : Config} {s : Endpoints} (sound : s.Sound) {op : Side × Action}
    (keeps : s.keeps op = true) :
    (s.step c op).Sound := by
  obtain ⟨x,action⟩ := op
  cases x with
  | a =>
    have keeps : s.a.overwrites s.b action = false := by simpa [Endpoints.keeps] using keeps
    obtain ⟨move,consistent,kept⟩ := act_refines c .a s.b.sent sound.consistentA action
    exact ⟨sound.linked.move move (kept ∘ unfinished_of_keeps keeps),consistent,sound.consistentB⟩
  | b =>
    have keeps : s.b.overwrites s.a action = false := by simpa [Endpoints.keeps] using keeps
    obtain ⟨move,consistent,kept⟩ := act_refines c .b s.a.sent sound.consistentB action
    exact ⟨(sound.linked.symm.move move (kept ∘ unfinished_of_keeps keeps)).symm,sound.consistentA,consistent⟩

theorem Sound.run {c : Config} {s : Endpoints} (sound : s.Sound) {ops : List (Side × Action)}
    (keeps : keepsAll c s ops = true) : (s.run c ops).Sound := by
  induction ops generalizing s with
  | nil => exact sound
  | cons op ops ih =>
    simp only [keepsAll,Bool.and_eq_true] at keeps
    exact ih (sound.step keeps.1) keeps.2

theorem keepsAll_take {c : Config} {s : Endpoints} {ops : List (Side × Action)}
    (keeps : keepsAll c s ops = true) (n : Nat) : keepsAll c s (ops.take n) = true := by
  induction ops generalizing s n with
  | nil => simpa using keeps
  | cons op ops ih =>
    cases n with
    | zero => rfl
    | succ n =>
      simp only [keepsAll,List.take_succ_cons,Bool.and_eq_true] at keeps ⊢
      exact ⟨keeps.1,ih keeps.2 n⟩

theorem established_consistent {session : NoiseSession} {isInitiator payload : Bool} {nextResendAtMs : Nat}
    {m : Message} {sent : List Message} : Endpoint.Consistent
      ⟨.established session isInitiator (if payload then some m else none) nextResendAtMs,[],1,m :: sent⟩ := by
  refine ⟨?_,nofun,nofun⟩
  cases payload <;> simp [SessionEntry.established]

theorem start_sound (initiator : Side) (payloads : Side → Bool) (nextResendAtMs : Nat) :
    (start initiator payloads nextResendAtMs).Sound := by
  cases initiator with
  | a => exact ⟨linked_established .a,established_consistent,established_consistent⟩
  | b => exact ⟨(linked_established .b).symm,established_consistent,established_consistent⟩

/-- Whatever the network and the timers do: as long as no side finishes a handshake
while it has a pending session that it initiated and has sent frames of and that the
other holds, the epochs agree in every state of the run. -/
theorem epochs_agree (c : Config) (initiator : Side) (payloads : Side → Bool) (nextResendAtMs : Nat)
    (ops : List (Side × Action)) (keeps : keepsAll c (start initiator payloads nextResendAtMs) ops = true)
    (n : Nat) :
    ((start initiator payloads nextResendAtMs).run c (ops.take n)).EpochsAgree :=
  ((start_sound initiator payloads nextResendAtMs).run (keepsAll_take keeps n)).epochsAgree

section Sample

def sampleConfig : Config where
  addr := fun | .a => 1 | .b => 2
  staleMs := 90000
  drainMs := 45000
  probeDelayMs := 2000
  probeIntervalMs := 1000
  resendIntervalMs := 1000
  maxResends := 5

def responderMoves : List (Side × Action) :=
  [(.a,.initiate 1000),(.b,.deliver 0 1100),(.a,.deliver 0 1200),(.b,.deliver 0 1300),(.a,.probe 4000),
    (.b,.deliver 0 4100)]

def initiatorMoves : List (Side × Action) := responderMoves ++ [(.b,.data),(.a,.deliver 0 4200)]

/-- What b sends is lost until its drain is over; a starts again and finishes a
second handshake beside the session that b has moved to. -/
def initiatorRestarts : List (Side × Action) :=
  responderMoves ++ [(.b,.drain 50000),(.a,.initiate 51000),(.b,.deliver 0 51100),(.a,.deliver 0 51200)]

theorem epochs_agree_initiatorMoves :
    keepsAll sampleConfig (start .a (fun _ => false) 0) initiatorMoves = true ∧
      ((start .a (fun _ => false) 0).run sampleConfig (initiatorMoves.take 8)).EpochsAgree :=
  ⟨by decide,epochs_agree sampleConfig .a (fun _ => false) 0 initiatorMoves (by decide) 8⟩

theorem initiatorRestarts_splits :
    ¬ ((start .a (fun _ => false) 0).run sampleConfig initiatorRestarts).EpochsAgree := by
  decide

end Sample

end Endpoints

end Fips.Rekey
