import Mathlib

set_option autoImplicit false

/-! Two parties that replace the session they share, over a network that may lose,
delay, reorder and repeat. A three-message handshake gives both the next session;
its initiator probes it, the responder moves to it on a probe, and the initiator
moves when it hears from the responder there. -/

namespace Rollover

open List Option

inductive Side where
  | a
  | b
  deriving DecidableEq, Repr

def Side.other : Side → Side
  | .a => .b
  | .b => .a

@[simp] theorem Side.other_other (x : Side) : x.other.other = x := by cases x <;> rfl

theorem Side.other_ne (x : Side) : x.other ≠ x := by cases x <;> decide

/-- The number of draws so far names a fresh ephemeral key. -/
structure Ephemeral where
  side : Side
  number : Nat
  deriving DecidableEq, Repr

structure Session where
  initiator : Ephemeral
  responder : Ephemeral
  deriving DecidableEq, Repr

inductive Message where
  | setup (e : Ephemeral)
  | ack (session : Session)
  | msg3 (session : Session)
  | frame (session : Session) (kBit : Bool)
  deriving DecidableEq, Repr

/-- A handshake that has not finished. -/
inductive Armed where
  | initiator (e : Ephemeral)
  | responder (session : Session)
  deriving DecidableEq, Repr

structure Party where
  current : Session
  past : List Session
  pending : Option Session
  /-- whether this party initiated the pending session -/
  own : Bool
  armed : Option Armed
  kBit : Bool
  drawn : Nat
  sent : List Message

/-- What party `x` can do when `received` is what the other has ever sent. -/
inductive Move (x : Side) (received : List Message) : Party → Party → Prop
  | idle (p : Party) : Move x received p p
  | resend (p : Party) (m : Message) (h : m ∈ p.sent) : Move x received p { p with sent := m :: p.sent }
  | data (p : Party) : Move x received p { p with sent := .frame p.current p.kBit :: p.sent }
  | probe (p : Party) (z : Session) (pending : p.pending = some z) (own : p.own = true) :
      Move x received p { p with sent := .frame z (!p.kBit) :: p.sent }
  | disarm (p : Party) : Move x received p { p with armed := none }
  | initiate (p : Party) :
      Move x received p { p with
        armed := some (.initiator ⟨x,p.drawn⟩)
        drawn := p.drawn + 1
        sent := .setup ⟨x,p.drawn⟩ :: p.sent }
  | respond (p : Party) (e : Ephemeral) (h : .setup e ∈ received) :
      Move x received p { p with
        armed := some (.responder ⟨e,⟨x,p.drawn⟩⟩)
        drawn := p.drawn + 1
        sent := .ack ⟨e,⟨x,p.drawn⟩⟩ :: p.sent }
  | completeInitiator (p : Party) (z : Session) (armed : p.armed = some (.initiator z.initiator))
      (h : .ack z ∈ received) :
      Move x received p { p with pending := some z, own := true, armed := none, sent := .msg3 z :: p.sent }
  | completeResponder (p : Party) (z : Session) (armed : p.armed = some (.responder z))
    (h : .msg3 z ∈ received) :
      Move x received p { p with pending := some z, own := false, armed := none }
  | promote (p : Party) (z : Session) (kBit : Bool) (pending : p.pending = some z)
    (h : .frame z kBit ∈ received)
      (differ : kBit ≠ p.kBit) :
      Move x received p { p with
        current := z
        past := p.current :: p.past
        pending := none
        own := false
        armed := none
        kBit := !p.kBit }

namespace Party

def Promoted (p : Party) (z : Session) : Prop := z = p.current ∨ z ∈ p.past

/-- The party is not on `z`, has not been, and has sent nothing there. -/
def Unused (p : Party) (z : Session) : Prop := ¬ p.Promoted z ∧ ∀ k, .frame z k ∉ p.sent

/-- The party has the keys of `z` or will have them once its handshake finishes. -/
def Holds (p : Party) (z : Session) : Prop :=
  p.armed = some (.responder z) ∨ p.pending = some z ∨ p.current = z

/-- The party is on a session that the other one initiated and has pending. -/
def Ahead (p q : Party) : Prop :=
  q.pending = some p.current ∧ q.own = true ∧ p.past.head? = some q.current ∧ p.kBit = !q.kBit

def Agree (p q : Party) : Prop := p.current = q.current ∧ p.kBit = q.kBit ∨ Ahead p q ∨ Ahead q p

/-- The party has a pending session that it initiated and has probed, and that the
other one holds. -/
def Exposed (p q : Party) : Prop :=
  ∃ z k, p.pending = some z ∧ p.own = true ∧ .frame z k ∈ p.sent ∧ q.Holds z

end Party

open Party

/-- What holds of party `x` towards the other. -/
structure Good (x : Side) (p q : Party) : Prop where
  setup_side : ∀ e, .setup e ∈ p.sent → e.side = x
  ack_fresh : ∀ z, .ack z ∈ p.sent → z.responder.side = x ∧ z.responder.number < p.drawn
  msg3_initiator : ∀ z, .msg3 z ∈ p.sent → z.initiator.side = x ∧ z.initiator.number < p.drawn
  msg3_responder : ∀ z, .msg3 z ∈ p.sent → z.responder.side = x.other ∧ z.responder.number < q.drawn
  armed_initiator : ∀ e, p.armed = some (.initiator e) →
    e.side = x ∧ e.number < p.drawn ∧ ∀ z, z.initiator = e → .msg3 z ∉ p.sent
  armed_responder : ∀ z, p.armed = some (.responder z) →
    z.initiator.side = x.other ∧ z.responder.side = x ∧ ¬ p.Promoted z
  promoted : ∀ z, p.Promoted z → .msg3 z ∈ p.sent ∨ .msg3 z ∈ q.sent
  pending : ∀ z, p.pending = some z →
    ¬ p.Promoted z ∧ (p.own = true → .msg3 z ∈ p.sent) ∧ (p.own = false → .msg3 z ∈ q.sent)
  /-- a responder uses a session only after moving to it -/
  frames : ∀ z k, .frame z k ∈ p.sent → z.responder.side = x → p.Promoted z
  /-- the initiator keeps a session while the responder has not moved to it, unless it
  has never used it -/
  kept : ∀ z, p.armed = some (.responder z) ∨ p.pending = some z ∧ p.own = false →
    .msg3 z ∈ q.sent → q.pending = some z ∨ q.Unused z
  /-- the responder stays on a session that the initiator still has pending -/
  waits : ∀ z, p.pending = some z → p.own = true → z ∉ q.past
  /-- the responder moves to a session on a probe -/
  probed : ∀ z, p.pending = some z → p.own = true → q.Promoted z → ∃ k, .frame z k ∈ p.sent
  frame_msg3 : ∀ z k, .frame z k ∈ p.sent → .msg3 z ∈ p.sent ∨ .msg3 z ∈ q.sent
  probe_kBit : ∀ z k, p.pending = some z → p.own = true → .frame z k ∈ p.sent → k = !p.kBit

section Facts
variable {x : Side} {p q : Party}

theorem Good.unsent (hx : Good x p q) {z : Session} (side : z.initiator.side = x.other) :
    .msg3 z ∉ p.sent := by
  intro mem
  exact x.other_ne (side.symm.trans (hx.msg3_initiator z mem).1)

theorem own_of_msg3 (hx : Good x p q) (hy : Good x.other q p) {z : Session} (pending : p.pending = some z)
    (h : .msg3 z ∈ p.sent) : p.own = true := by
  cases own : p.own with
  | true => rfl
  | false => exact absurd h (hx.unsent (hy.msg3_initiator z ((hx.pending z pending).2.2 own)).1)

theorem not_promoted (hx : Good x p q) {z : Session} (here : .msg3 z ∉ p.sent) (there : .msg3 z ∉ q.sent) :
    ¬ p.Promoted z := by
  intro promoted
  exact (hx.promoted z promoted).elim here there

theorem Good.of_peer {q' : Party} (hx : Good x p q) (drawn : q.drawn ≤ q'.drawn) (sent : q.sent ⊆ q'.sent)
    (kept : ∀ z, p.armed = some (.responder z) ∨ p.pending = some z ∧ p.own = false → .msg3 z ∈ q'.sent →
      q'.pending = some z ∨ q'.Unused z) (waits : ∀ z, p.pending = some z → p.own = true → z ∉ q'.past)
    (probed : ∀ z, p.pending = some z → p.own = true → q'.Promoted z → ∃ k, .frame z k ∈ p.sent) :
    Good x p q' :=
  { hx with
    msg3_responder := fun z mem => (hx.msg3_responder z mem).imp_right fun less =>
      Nat.lt_of_lt_of_le less drawn
    promoted := fun z promoted => (hx.promoted z promoted).imp_right fun mem => sent mem
    pending := by
      intro z pending
      obtain ⟨unused,own,other⟩ := hx.pending z pending
      exact ⟨unused,own,fun h => sent (other h)⟩
    kept := kept
    waits := waits
    probed := probed
    frame_msg3 := fun z k mem => (hx.frame_msg3 z k mem).imp_right fun mem => sent mem }

theorem Party.Unused.frame {p' : Party} {z : Session} (h : p.Unused z) (current : p'.current = p.current)
    (past : p'.past = p.past) (sent : ∀ k, .frame z k ∈ p'.sent → .frame z k ∈ p.sent) : p'.Unused z := by
  refine ⟨?_,fun k mem => h.2 k (sent k mem)⟩
  rw [Promoted,current,past]
  exact h.1

theorem Good.of_quiet_peer {q' : Party} (hx : Good x p q) (drawn : q.drawn ≤ q'.drawn)
    (sent : q.sent ⊆ q'.sent) (pending : q'.pending = q.pending) (current : q'.current = q.current)
    (past : q'.past = q.past) (msg3 : ∀ z, .msg3 z ∈ q'.sent → .msg3 z ∈ q.sent)
    (frame : ∀ z k, .frame z k ∈ q'.sent → .frame z k ∈ q.sent) : Good x p q' := by
  refine hx.of_peer drawn sent ?_ ?_ ?_
  · intro z held mem
    rw [pending]
    exact (hx.kept z held (msg3 z mem)).imp_right fun unused => unused.frame current past (frame z)
  · rw [past]
    exact hx.waits
  · unfold Promoted
    rw [current,past]
    exact hx.probed

theorem Good.probed_cons (hx : Good x p q) (m : Message) (z : Session) (pending : p.pending = some z)
    (own : p.own = true) (promoted : q.Promoted z) : ∃ k, .frame z k ∈ m :: p.sent :=
  (hx.probed z pending own promoted).imp fun _ mem => mem_cons_of_mem _ mem

theorem Good.promoted_cons (hx : Good x p q) (m : Message) (z : Session) (promoted : p.Promoted z) :
    .msg3 z ∈ m :: p.sent ∨ .msg3 z ∈ q.sent :=
  (hx.promoted z promoted).imp_left (mem_cons_of_mem _)

theorem Good.pending_cons (hx : Good x p q) (m : Message) (z : Session) (pending : p.pending = some z) :
    ¬ p.Promoted z ∧ (p.own = true → .msg3 z ∈ m :: p.sent) ∧ (p.own = false → .msg3 z ∈ q.sent) := by
  obtain ⟨unused,own,other⟩ := hx.pending z pending
  exact ⟨unused,fun h => mem_cons_of_mem _ (own h),other⟩

end Facts

/-- The invariant of both parties, seen from `x`. -/
structure Linked (x : Side) (p q : Party) : Prop where
  here : Good x p q
  there : Good x.other q p
  agree : Agree p q

section Moves
variable {x : Side} {p q : Party}
variable (l : Linked x p q)
include l

theorem Linked.send (m : Message)
    (known : m ∈ p.sent ∨ ∃ z k, m = .frame z k ∧
      (p.Promoted z ∨ p.pending = some z ∧ p.own = true ∧ k = !p.kBit)) :
    Linked x { p with sent := m :: p.sent } q := by
  have old (m' : Message) (mem : m' ∈ m :: p.sent) (other : ∀ z k, m' ≠ .frame z k) : m' ∈ p.sent := by
    rcases mem_cons.1 mem with rfl | mem
    · rcases known with known | ⟨z,k,rfl,-⟩
      · exact known
      · exact absurd rfl (other z k)
    · exact mem
  have frame (z : Session) (k : Bool) (mem : .frame z k ∈ m :: p.sent) :
      .frame z k ∈ p.sent ∨ p.Promoted z ∨ p.pending = some z ∧ p.own = true ∧ k = !p.kBit := by
    rcases mem_cons.1 mem with same | mem
    · rcases known with known | ⟨z',k',eq,use⟩
      · exact .inl (same ▸ known)
      · cases same.trans eq
        exact .inr use
    · exact .inl mem
  obtain ⟨hx,hy,agree⟩ := l
  refine ⟨?_,?_,agree⟩
  · exact {
      setup_side := fun e mem => hx.setup_side e (old _ mem (by simp))
      ack_fresh := fun z mem => hx.ack_fresh z (old _ mem (by simp))
      msg3_initiator := fun z mem => hx.msg3_initiator z (old _ mem (by simp))
      msg3_responder := fun z mem => hx.msg3_responder z (old _ mem (by simp))
      armed_initiator := by
        intro e armed
        obtain ⟨side,drawn,unsent⟩ := hx.armed_initiator e armed
        exact ⟨side,drawn,fun z same mem => unsent z same (old _ mem (by simp))⟩
      armed_responder := hx.armed_responder
      promoted := hx.promoted_cons _
      pending := hx.pending_cons _
      frames := by
        intro z k mem side
        rcases frame z k mem with mem | promoted | ⟨pending,own,-⟩
        · exact hx.frames z k mem side
        · exact promoted
        · have other := (hx.msg3_responder z ((hx.pending z pending).2.1 own)).1
          exact absurd (other.symm.trans side) x.other_ne
      kept := hx.kept
      waits := hx.waits
      probed := hx.probed_cons _
      frame_msg3 := by
        intro z k mem
        rcases frame z k mem with mem | promoted | ⟨pending,own,-⟩
        · exact (hx.frame_msg3 z k mem).imp_left (mem_cons_of_mem _)
        · exact hx.promoted_cons _ z promoted
        · exact .inl (mem_cons_of_mem _ ((hx.pending z pending).2.1 own))
      probe_kBit := by
        intro z k pending own mem
        rcases frame z k mem with mem | promoted | ⟨-,-,bit⟩
        · exact hx.probe_kBit z k pending own mem
        · exact absurd promoted (hx.pending z pending).1
        · exact bit }
  · refine hy.of_peer (Nat.le_refl _) (subset_cons_self _ _) ?_ hy.waits hy.probed
    intro z held mem
    by_cases pending : p.pending = some z
    · exact .inl pending
    · have unused := (hy.kept z held (old _ mem (by simp))).resolve_left pending
      refine .inr (unused.frame rfl rfl ?_)
      intro k mem
      rcases frame z k mem with mem | promoted | ⟨pending',-,-⟩
      · exact mem
      · exact absurd promoted unused.1
      · exact absurd pending' pending

theorem Linked.disarm : Linked x { p with armed := none } q := by
  obtain ⟨hx,hy,agree⟩ := l
  refine ⟨?_,?_,agree⟩
  · exact { hx with
      armed_initiator := by simp
      armed_responder := by simp
      kept := by
        intro z held
        rcases held with armed | pending
        · cases armed
        · exact hx.kept z (.inr pending) }
  · exact hy.of_quiet_peer (Nat.le_refl _) (List.Subset.refl _) rfl rfl rfl (fun _ => id) (fun _ _ => id)

/-- A party draws an ephemeral key, arms a handshake with it and says so. -/
theorem Linked.draw (m : Message) (armed : Armed) (msg3 : ∀ z, .msg3 z ≠ m) (frame : ∀ z k, .frame z k ≠ m)
    (setup : ∀ e, .setup e = m → e.side = x) (ack : ∀ z, .ack z = m → z.responder = ⟨x,p.drawn⟩)
    (initiator : ∀ e, armed = .initiator e → e = ⟨x,p.drawn⟩)
    (responder : ∀ z, armed = .responder z → (z.initiator.side = x.other ∧ z.responder.side = x ∧
      ¬ p.Promoted z) ∧ .msg3 z ∉ q.sent) :
    Linked x { p with armed := some armed, drawn := p.drawn + 1, sent := m :: p.sent } q := by
  obtain ⟨hx,hy,agree⟩ := l
  have msg3 (z : Session) (mem : .msg3 z ∈ m :: p.sent) : .msg3 z ∈ p.sent :=
    (mem_cons.1 mem).resolve_left (msg3 z)
  have frame (z : Session) (k : Bool) (mem : .frame z k ∈ m :: p.sent) : .frame z k ∈ p.sent :=
    (mem_cons.1 mem).resolve_left (frame z k)
  refine ⟨?_,hy.of_quiet_peer (Nat.le_succ _) (subset_cons_self _ _) rfl rfl rfl msg3 frame,agree⟩
  exact {
    setup_side := fun e mem => (mem_cons.1 mem).elim (setup e) (hx.setup_side e)
    ack_fresh := by
      intro z mem
      rcases mem_cons.1 mem with same | mem
      · rw [ack z same]
        exact ⟨rfl,Nat.lt_succ_self _⟩
      · exact (hx.ack_fresh z mem).imp_right Nat.lt_succ_of_lt
    msg3_initiator := fun z mem => (hx.msg3_initiator z (msg3 z mem)).imp_right Nat.lt_succ_of_lt
    msg3_responder := fun z mem => hx.msg3_responder z (msg3 z mem)
    armed_initiator := by
      intro e started
      obtain rfl := initiator e (some.inj started)
      refine ⟨rfl,Nat.lt_succ_self _,fun z same mem => ?_⟩
      have drawn := (hx.msg3_initiator z (msg3 z mem)).2
      rw [same] at drawn
      exact Nat.lt_irrefl _ drawn
    armed_responder := fun z started => (responder z (some.inj started)).1
    promoted := hx.promoted_cons _
    pending := hx.pending_cons _
    frames := fun z k mem => hx.frames z k (frame z k mem)
    kept := by
      intro z held mem
      rcases held with started | pending
      · exact absurd mem (responder z (some.inj started)).2
      · exact hx.kept z (.inr pending) mem
    waits := hx.waits
    probed := hx.probed_cons _
    frame_msg3 := fun z k mem => (hx.frame_msg3 z k (frame z k mem)).imp_left (mem_cons_of_mem _)
    probe_kBit := fun z k pending own mem => hx.probe_kBit z k pending own (frame z k mem) }

theorem Linked.initiate :
    Linked x { p with
      armed := some (.initiator ⟨x,p.drawn⟩)
      drawn := p.drawn + 1
      sent := .setup ⟨x,p.drawn⟩ :: p.sent } q := by
  refine l.draw _ _ (by simp) (by simp) ?_ (by simp) ?_ (by simp)
  · rintro e ⟨⟩
    rfl
  · rintro e ⟨⟩
    rfl

theorem Linked.respond (e : Ephemeral) (h : .setup e ∈ q.sent) :
    Linked x { p with
      armed := some (.responder ⟨e,⟨x,p.drawn⟩⟩)
      drawn := p.drawn + 1
      sent := .ack ⟨e,⟨x,p.drawn⟩⟩ :: p.sent } q := by
  have side := l.there.setup_side e h
  refine l.draw _ _ (by simp) (by simp) (by simp) ?_ (by simp) ?_
  · rintro z ⟨⟩
    rfl
  · rintro z ⟨⟩
    have there : Message.msg3 ⟨e,⟨x,p.drawn⟩⟩ ∉ q.sent := fun mem =>
      Nat.lt_irrefl _ (l.there.msg3_responder _ mem).2
    exact ⟨⟨side,rfl,not_promoted l.here (l.here.unsent side) there⟩,there⟩

theorem Linked.unused_of_replaced (safe : ¬ Exposed p q) {z : Session}
    (held : q.armed = some (.responder z) ∨ q.pending = some z ∧ q.own = false) (mem : .msg3 z ∈ p.sent) :
    p.Unused z := by
  rcases l.there.kept z held mem with pending | unused
  · have holds : q.Holds z := held.imp_right fun h => .inl h.1
    refine ⟨(l.here.pending z pending).1,?_⟩
    intro k frame
    exact safe ⟨z,k,pending,own_of_msg3 l.here l.there pending mem,frame,holds⟩
  · exact unused

theorem Linked.agree_of_replaced {p' : Party} (current : p'.current = p.current) (past : p'.past = p.past)
    (kBit : p'.kBit = p.kBit) (safe : ¬ Exposed p q) : Agree p' q := by
  rcases l.agree with same | ahead | ⟨pending,own,-,-⟩
  · exact .inl (by rwa [current,kBit])
  · exact .inr (.inl (by rwa [Ahead,current,past,kBit]))
  · obtain ⟨k,frame⟩ := l.here.probed _ pending own (.inl rfl)
    exact absurd ⟨_,k,pending,own,frame,.inr (.inr rfl)⟩ safe

theorem Linked.completeInitiator (z : Session) (armed : p.armed = some (.initiator z.initiator))
    (h : .ack z ∈ q.sent) (safe : ¬ Exposed p q) :
    Linked x { p with pending := some z, own := true, armed := none, sent := .msg3 z :: p.sent } q := by
  have hx := l.here
  have hy := l.there
  obtain ⟨side,drawn,unsent⟩ := hx.armed_initiator _ armed
  have here : Message.msg3 z ∉ p.sent := unsent z rfl
  have there : Message.msg3 z ∉ q.sent := hy.unsent (by simpa using side)
  have old (m : Message) (mem : m ∈ Message.msg3 z :: p.sent) (other : ∀ w, m ≠ .msg3 w) : m ∈ p.sent :=
    (mem_cons.1 mem).resolve_left (other _)
  refine ⟨?_,?_,l.agree_of_replaced rfl rfl rfl safe⟩
  · exact {
      setup_side := fun e mem => hx.setup_side e (old _ mem (by simp))
      ack_fresh := fun w mem => hx.ack_fresh w (old _ mem (by simp))
      msg3_initiator := by
        intro w mem
        rcases mem_cons.1 mem with same | mem
        · cases same
          exact ⟨side,drawn⟩
        · exact hx.msg3_initiator w mem
      msg3_responder := by
        intro w mem
        rcases mem_cons.1 mem with same | mem
        · cases same
          exact hy.ack_fresh z h
        · exact hx.msg3_responder w mem
      armed_initiator := by simp
      armed_responder := by simp
      promoted := hx.promoted_cons _
      pending := by
        intro w pending
        cases pending
        exact ⟨not_promoted hx here there,fun _ => mem_cons_self,by simp⟩
      frames := fun w k mem => hx.frames w k (old _ mem (by simp))
      kept := by simp
      waits := by
        intro w pending _ mem
        cases pending
        exact not_promoted hy there here (.inr mem)
      probed := by
        intro w pending _ promoted
        cases pending
        exact absurd promoted (not_promoted hy there here)
      frame_msg3 := fun w k mem => (hx.frame_msg3 w k (old _ mem (by simp))).imp_left (mem_cons_of_mem _)
      probe_kBit := by
        intro w k pending _ mem
        cases pending
        exact absurd (hx.frame_msg3 z k (old _ mem (by simp))) (not_or.2 ⟨here,there⟩) }
  · refine hy.of_peer (Nat.le_refl _) (subset_cons_self _ _) ?_ hy.waits hy.probed
    intro w held mem
    rcases mem_cons.1 mem with same | mem
    · cases same
      exact .inl rfl
    · exact .inr ((l.unused_of_replaced safe held mem).frame rfl rfl fun k mem => old _ mem (by simp))

theorem Linked.completeResponder (z : Session) (armed : p.armed = some (.responder z)) (h : .msg3 z ∈ q.sent)
    (safe : ¬ Exposed p q) : Linked x { p with pending := some z, own := false, armed := none } q := by
  have hx := l.here
  have hy := l.there
  obtain ⟨-,-,unused⟩ := hx.armed_responder z armed
  refine ⟨?_,?_,l.agree_of_replaced rfl rfl rfl safe⟩
  · exact { hx with
      armed_initiator := by simp
      armed_responder := by simp
      pending := by
        intro w pending
        cases pending
        exact ⟨unused,by simp,fun _ => h⟩
      kept := by
        intro w held mem
        rcases held with none | ⟨pending,-⟩
        · cases none
        · cases pending
          exact hx.kept z (.inl armed) h
      waits := by simp
      probed := by simp
      probe_kBit := by simp }
  · exact hy.of_peer (Nat.le_refl _) (List.Subset.refl _)
      (fun w held mem => .inr (l.unused_of_replaced safe held mem)) hy.waits hy.probed

theorem Linked.ahead_of_frame {z : Session} {k : Bool} (pending : p.pending = some z) (own : p.own = true)
    (h : .frame z k ∈ q.sent) : q.current = z ∧ Ahead q p := by
  obtain ⟨unused,msg3,-⟩ := l.here.pending z pending
  have side := (l.here.msg3_responder z (msg3 own)).1
  have current : z = q.current := (l.there.frames z k h side).resolve_right (l.here.waits z pending own)
  refine ⟨current.symm,?_⟩
  rcases l.agree with ⟨same,-⟩ | ⟨-,-,previous,-⟩ | ahead
  · exact absurd (.inl (current.trans same.symm)) unused
  · rw [← current] at previous
    exact absurd (.inr (mem_of_mem_head? previous)) unused
  · exact ahead

theorem Linked.same_of_responder {z : Session} {k : Bool} (pending : p.pending = some z) (own : p.own = false)
    (h : .frame z k ∈ q.sent) :
    q.pending = some z ∧ q.own = true ∧ p.current = q.current ∧ p.kBit = q.kBit := by
  obtain ⟨unused,-,msg3⟩ := l.here.pending z pending
  have waiting := (l.here.kept z (.inr ⟨pending,own⟩) (msg3 own)).resolve_right fun unused => unused.2 k h
  refine ⟨waiting,own_of_msg3 l.there (by simpa using l.here) waiting (msg3 own),?_⟩
  rcases l.agree with same | ⟨ahead,-,-,-⟩ | ⟨-,own',-,-⟩
  · exact same
  · rw [waiting] at ahead
    exact absurd (.inl (some.inj ahead)) unused
  · rw [own] at own'
    cases own'

theorem Linked.unused_of_awaited {z w : Session} {k : Bool} (pending : p.pending = some z)
    (h : .frame z k ∈ q.sent) (held : q.armed = some (.responder w) ∨ q.pending = some w ∧ q.own = false)
    (mem : .msg3 w ∈ p.sent) :
    w ≠ z ∧ p.Unused w := by
  have other : w ≠ z := by
    rintro rfl
    have promoted : q.Promoted w := l.there.frames w k h (l.here.msg3_responder w mem).1
    rcases held with armed | ⟨pending',-⟩
    · exact (l.there.armed_responder w armed).2.2 promoted
    · exact (l.there.pending w pending').1 promoted
  refine ⟨other,(l.there.kept w held mem).resolve_left ?_⟩
  rw [pending]
  exact fun same => other (some.inj same).symm

theorem Linked.current_not_pending {z : Session} {k : Bool} (pending : p.pending = some z)
    (h : .frame z k ∈ q.sent) :
    q.pending ≠ some p.current := by
  intro behind
  cases own : p.own with
  | true =>
    obtain ⟨-,-,-,previous,-⟩ := l.ahead_of_frame pending own h
    exact (l.there.pending _ behind).1 (.inr (mem_of_mem_head? previous))
  | false =>
    obtain ⟨waiting,-,-,-⟩ := l.same_of_responder pending own h
    rw [behind] at waiting
    exact (l.here.pending z pending).1 (.inl (some.inj waiting).symm)

theorem Linked.promote (z : Session) (k : Bool) (pending : p.pending = some z) (h : .frame z k ∈ q.sent) :
    Linked x { p with
      current := z
      past := p.current :: p.past
      pending := none
      own := false
      armed := none
      kBit := !p.kBit } q := by
  have hx := l.here
  have hy := l.there
  obtain ⟨unused,ownMsg3,otherMsg3⟩ := hx.pending z pending
  have grows (w : Session) (promoted : p.Promoted w) : w = z ∨ w ∈ p.current :: p.past :=
    .inr (promoted.elim (fun same => same ▸ mem_cons_self) (mem_cons_of_mem _))
  refine ⟨?_,?_,?_⟩
  · exact { hx with
      armed_initiator := by simp
      armed_responder := by simp
      promoted := by
        intro w promoted
        rcases promoted with same | mem
        · cases own : p.own with
          | true => exact .inl (same ▸ ownMsg3 own)
          | false => exact .inr (same ▸ otherMsg3 own)
        · exact hx.promoted w (mem_cons.1 mem)
      pending := by simp
      frames := fun w k' mem side => grows w (hx.frames w k' mem side)
      kept := by simp
      waits := by simp
      probed := by simp
      probe_kBit := by simp }
  · refine hy.of_peer (Nat.le_refl _) (List.Subset.refl _) ?_ ?_ ?_
    · intro w held mem
      obtain ⟨other,unused⟩ := l.unused_of_awaited pending h held mem
      refine .inr ⟨?_,unused.2⟩
      rintro (same | past)
      · exact other same
      · exact unused.1 (mem_cons.1 past)
    · intro w pending' own' mem
      rcases mem_cons.1 mem with same | mem
      · exact l.current_not_pending pending h (same ▸ pending')
      · exact hy.waits w pending' own' mem
    · intro w pending' own' promoted
      rcases promoted with same | past
      · exact ⟨k,by
          rw [same]
          exact h⟩
      · exact hy.probed w pending' own' (mem_cons.1 past)
  · cases own : p.own with
    | true =>
      obtain ⟨current,-,-,-,kBit⟩ := l.ahead_of_frame pending own h
      exact .inl ⟨current.symm,kBit.symm⟩
    | false =>
      obtain ⟨waiting,own',current,kBit⟩ := l.same_of_responder pending own h
      exact .inr (.inl ⟨waiting,own',by rw [current]; rfl,by rw [kBit]⟩)

theorem Linked.not_exposed {w : Session} (unsent : .msg3 w ∉ p.sent)
    (keeps : Exposed p q → some w = p.pending ∨ p.pending = some p.current) : ¬ Exposed p q := by
  intro exposed
  have kept := keeps exposed
  obtain ⟨z,k,pending,own,-,-⟩ := exposed
  obtain ⟨unused,msg3,-⟩ := l.here.pending z pending
  rw [pending] at kept
  rcases kept with same | promoted
  · exact unsent (some.inj same ▸ msg3 own)
  · exact unused (.inl (some.inj promoted))

theorem Linked.move {p' : Party} (move : Move x q.sent p p')
    (keeps : Exposed p q → p'.pending = p.pending ∨ p.pending = some p'.current) : Linked x p' q := by
  cases move with
  | idle => exact l
  | resend m h => exact l.send m (.inl h)
  | data => exact l.send _ (.inr ⟨_,_,rfl,.inl (.inl rfl)⟩)
  | probe z pending own => exact l.send _ (.inr ⟨_,_,rfl,.inr ⟨pending,own,rfl⟩⟩)
  | disarm => exact l.disarm
  | initiate => exact l.initiate
  | respond e h => exact l.respond e h
  | completeInitiator z armed h =>
    have unsent := (l.here.armed_initiator _ armed).2.2 z rfl
    exact l.completeInitiator z armed h (l.not_exposed unsent keeps)
  | completeResponder z armed h =>
    have unsent := l.here.unsent (l.here.armed_responder z armed).1
    exact l.completeResponder z armed h (l.not_exposed unsent keeps)
  | promote z k pending h differ => exact l.promote z k pending h

theorem Linked.symm : Linked x.other q p := by
  refine ⟨l.there,by simpa using l.here,?_⟩
  rcases l.agree with ⟨current,kBit⟩ | ahead | behind
  · exact .inl ⟨current.symm,kBit.symm⟩
  · exact .inr (.inr ahead)
  · exact .inr (.inl behind)

end Moves

section Start
variable (x : Side)

def firstSession : Session := ⟨⟨x,0⟩,⟨x.other,0⟩⟩

def established (sent : List Message) : Party where
  current := firstSession x
  past := []
  pending := none
  own := false
  armed := none
  kBit := false
  drawn := 1
  sent := sent

theorem linked_established :
    Linked x (established x [.msg3 (firstSession x),.setup ⟨x,0⟩])
      (established x [.ack (firstSession x)]) where
  here := by
    constructor <;> simp [established,firstSession,Party.Promoted]
  there := by
    constructor <;> simp [established,firstSession,Party.Promoted]
  agree := .inl ⟨rfl,rfl⟩

end Start

end Rollover
