import Fips.Dataplane.OwnerReplay
import Fips.Noise.ChannelBinding

set_option autoImplicit false

namespace Fips.Noise
open HandshakeState List

inductive TransportError where
  | noise (e : NoiseError)
  | replayDetected (counter : Nat)

theorem check_acceptAll (calls : List Nat) (c : Nat) :
    (ReplayWindow.acceptAll calls).check c = true ↔ c ≠ u64Max ∧
      (largestAccepted calls < c ∨ largestAccepted calls-c < replayWindowSize ∧ c ∉ acceptedSet calls) := by
  rw [ReplayWindow.check,rejectionReason_represents (acceptAll_represents calls),expectedReason]
  split_ifs <;> simp_all

theorem largestAccepted_lt {calls : List Nat} {n : Nat} (pos : 0 < n) (h : ∀ c ∈ calls, c < n) :
    largestAccepted calls < n := by
  induction calls with
  | nil => exact pos
  | cons c cs ih =>
    have hc := h c mem_cons_self
    have hcs := ih fun d hd => h d (mem_cons_of_mem c hd)
    rw [largestAccepted]
    split <;> omega

section Transport

variable {SecretKey PublicKey : Type} (P : Primitives SecretKey PublicKey)
  (plaintext ciphertext : Bytes) (counter : Nat)
  (aad : Bytes)

namespace CipherState
variable (c : CipherState)

def encryptWithCounterAndAad : Except NoiseError Bytes :=
  match c.key with
  | none => .ok plaintext
  | some key =>
    if maxMessageSize - tagSize < plaintext.length then
      .error (.messageTooLarge plaintext.length (maxMessageSize - tagSize))
    else .ok (P.aeadSeal key counter aad plaintext)

def decryptWithCounterAndAad : Except NoiseError Bytes :=
  match c.key with
  | none => .ok ciphertext
  | some key =>
    if ciphertext.length < tagSize then .error (.messageTooShort tagSize ciphertext.length)
    else match P.aeadOpen key counter aad ciphertext with
      | none => .error .decryptionFailed
      | some plaintext => .ok plaintext

end CipherState

namespace NoiseSession

/-- `SendCounterAuthority::reserve`. -/
def takeSendCounter : EStateM TransportError (NoiseSession PublicKey) Nat := fun s =>
  if s.sendCounter = u64Max then .error (.noise .nonceOverflow) s
  else .ok s.sendCounter { s with sendCounter := s.sendCounter+1 }

/-- A message that is too large uses up a counter. -/
def encryptWithAad : EStateM TransportError (NoiseSession PublicKey) Bytes := fun s =>
  match takeSendCounter s with
  | .error e s => .error e s
  | .ok counter s =>
    match s.sendCipher.encryptWithCounterAndAad P plaintext counter aad with
    | .error e => .error (.noise e) s
    | .ok ciphertext => .ok ciphertext s

def decryptWithReplayCheckAndAad : EStateM TransportError (NoiseSession PublicKey) Bytes := fun s =>
  if s.replayWindow.check counter then
    match s.recvCipher.decryptWithCounterAndAad P ciphertext counter aad with
    | .error e => .error (.noise e) s
    | .ok plaintext => .ok plaintext { s with replayWindow := s.replayWindow.accept counter }
  else .error (.replayDetected counter) s

end NoiseSession

structure Frame where
  counter : Nat
  aad : Bytes
  plaintext : Bytes
  ciphertext : Bytes
  deriving DecidableEq

/-- One direction of a session, with the frames sealed so far and those handed up. -/
structure Link (PublicKey : Type) where
  sender : NoiseSession PublicKey
  receiver : NoiseSession PublicKey
  sent : List Frame
  delivered : List Frame

namespace Link
variable (l : Link PublicKey)

/-- The wire carries the counter read before the call. -/
def send : Link PublicKey :=
  match l.sender.encryptWithAad P plaintext aad with
  | .error _ sender => { l with sender := sender }
  | .ok ciphertext sender =>
    { l with sender := sender, sent := l.sent ++ [⟨l.sender.sendCounter,aad,plaintext,ciphertext⟩] }

def receive : Link PublicKey :=
  match l.receiver.decryptWithReplayCheckAndAad P ciphertext counter aad with
  | .error _ receiver => { l with receiver := receiver }
  | .ok plaintext receiver =>
    { l with receiver := receiver, delivered := l.delivered ++ [⟨counter,aad,plaintext,ciphertext⟩] }

/-- What opens under the receiver's key has been sealed by the sender. -/
def Unforged : Prop :=
  ∀ plaintext, l.receiver.recvCipher.decryptWithCounterAndAad P ciphertext counter aad = .ok plaintext →
    ⟨counter,aad,plaintext,ciphertext⟩ ∈ l.sent

/-- The network hands over any bytes, any number of times and in any order. -/
inductive Reachable : Link PublicKey → Prop
  | start {i r : HandshakeState SecretKey PublicKey} {a b : NoiseSession PublicKey}
      (ha : intoSession P i = .ok a) (hb : intoSession P r = .ok b)
      (keys : a.sendCipher = b.recvCipher) : Reachable ⟨a,b,[],[]⟩
  | send {l : Link PublicKey} (h : Reachable l) (plaintext aad : Bytes) : Reachable (l.send P plaintext aad)
  | receive {l : Link PublicKey} (h : Reachable l) {ciphertext aad : Bytes} {counter : Nat}
      (unforged : l.Unforged P ciphertext counter aad) : Reachable (l.receive P ciphertext counter aad)

def seen : List Nat := l.delivered.map Frame.counter

/-- The window holds the counters of the delivered frames, each let in when it was fresh. -/
structure Sound : Prop where
  keys : l.sender.sendCipher = l.receiver.recvCipher
  room : l.sender.sendCounter ≤ u64Max
  below : ∀ f ∈ l.sent, f.counter < l.sender.sendCounter
  increasing : l.sent.Pairwise fun f g => f.counter < g.counter
  sealed : ∀ f ∈ l.sent,
    l.sender.sendCipher.encryptWithCounterAndAad P f.plaintext f.counter f.aad = .ok f.ciphertext
  window : l.receiver.replayWindow = .acceptAll l.seen
  genuine : ∀ f ∈ l.delivered, f ∈ l.sent
  once : l.seen.Nodup
  accepted : ∀ c ∈ l.seen, c ∈ acceptedSet l.seen

variable {P} {l}

theorem Sound.send (h : l.Sound P) : (l.send P plaintext aad).Sound P := by
  unfold Link.send NoiseSession.encryptWithAad NoiseSession.takeSendCounter
  by_cases full : l.sender.sendCounter = u64Max
  · simpa only [full,if_true] using h
  · have taken : ({ l with sender := { l.sender with sendCounter := l.sender.sendCounter+1 } } :
      Link PublicKey).Sound P :=
      { h with
        room := Nat.lt_of_le_of_ne h.room full
        below := fun f hf => Nat.lt_succ_of_lt (h.below f hf) }
    simp only [full,if_false]
    cases result : l.sender.sendCipher.encryptWithCounterAndAad P plaintext l.sender.sendCounter aad with
    | error e => exact taken
    | ok ciphertext => exact { taken with
        below := by simpa [or_imp,forall_and] using taken.below
        increasing := by simpa [pairwise_append,h.increasing] using h.below
        sealed := by simpa [or_imp,forall_and,result] using h.sealed
        genuine := fun f hf => mem_append_left _ (h.genuine f hf) }

theorem Sound.receive (h : l.Sound P) (unforged : l.Unforged P ciphertext counter aad) :
    (l.receive P ciphertext counter aad).Sound P := by
  unfold Link.receive NoiseSession.decryptWithReplayCheckAndAad
  by_cases fresh : l.receiver.replayWindow.check counter = true
  · simp only [fresh,if_true]
    cases opened : l.receiver.recvCipher.decryptWithCounterAndAad P ciphertext counter aad with
    | error e => exact h
    | ok plaintext =>
      rw [h.window,check_acceptAll] at fresh
      have new : counter ∉ l.seen := fun old => fresh.2.elim
        (Nat.not_lt.mpr ((acceptAll_represents _).le_highest _ (h.accepted counter old)))
        fun fresh => fresh.2 (h.accepted counter old)
      have live : ¬ OlderThanWindow (largestAccepted l.seen) counter := by
        rintro ⟨old,outside⟩
        omega
      exact { h with
        window := by simp [seen,h.window,ReplayWindow.acceptAll]
        genuine := by simpa [or_imp,forall_and] using ⟨h.genuine,unforged plaintext opened⟩
        once := by simpa [seen,nodup_append] using ⟨h.once,by simpa [seen] using new⟩
        accepted := by
          simp only [seen,map_append,map_singleton,mem_acceptedSet_snoc,forall_mem_append]
          exact ⟨fun c hc => .inl (h.accepted c hc),by simpa using .inr ⟨fresh.1,live⟩⟩ }
  · simp only [fresh]
    exact h

theorem Reachable.sound (h : Reachable P l) : l.Sound P := by
  induction h with
  | start ha hb keys =>
    obtain ⟨_,_,_,_,_,rfl⟩ := intoSession_eq_ok.mp ha
    obtain ⟨_,_,_,_,_,rfl⟩ := intoSession_eq_ok.mp hb
    exact ⟨keys,Nat.zero_le _,by simp,by simp,by simp,rfl,by simp,by simp [seen],by simp [seen]⟩
  | send _ plaintext aad ih => exact ih.send plaintext aad
  | receive _ unforged ih => exact ih.receive _ _ _ unforged

theorem Sound.opens (h : l.Sound P) (aead : P.AeadLaws) {f : Frame} (hf : f ∈ l.sent) :
    l.receiver.recvCipher.decryptWithCounterAndAad P f.ciphertext f.counter f.aad = .ok f.plaintext := by
  have made := h.sealed f hf
  rw [h.keys] at made
  unfold CipherState.encryptWithCounterAndAad at made
  unfold CipherState.decryptWithCounterAndAad
  cases known : l.receiver.recvCipher.key with
  | none => simpa [known,eq_comm] using made
  | some key =>
    simp only [known] at made ⊢
    split at made
    · contradiction
    · rw [← Except.ok.inj made]
      simp [aead.open_seal,aead.seal_length]

theorem Reachable.deliver (h : Reachable P l) (aead : P.AeadLaws) {f : Frame} (hf : f ∈ l.sent) :
    Reachable P (l.receive P f.ciphertext f.counter f.aad) := by
  refine h.receive fun plaintext opened => ?_
  cases opened.symm.trans (h.sound.opens aead hf)
  exact hf

end Link
end Transport

section SmallLink
open SmallGroup

def smallFrame (counter : Nat) : Frame := ⟨counter,[],[7],7 :: List.replicate 16 0⟩

def smallLink (a b : NoiseSession Key) : Link Key :=
  Link.send primitives [7] [] (Link.send primitives [7] [] ⟨a,b,[],[]⟩)

def Link.overtaken (l : Link Key) : Link Key := l.receive primitives (smallFrame 1).ciphertext 1 []

/-- Two frames sealed after an IK handshake, of which the second arrives first, and twice. -/
theorem exists_smallLink : ∃ l : Link Key, l.Reachable primitives ∧ l.sent = [smallFrame 0,smallFrame 1] ∧
    l.delivered = [smallFrame 1] ∧ l.overtaken.delivered = [smallFrame 1] := by
  have h : (sessions primitives (handshakeRun primitives .ik honest smallSetup)).any (fun (a,b) => decide
      (MatchingKeys a b ∧ smallFrame 1 ∈ (smallLink a b).sent ∧
        (smallLink a b).overtaken.sent = [smallFrame 0,smallFrame 1] ∧
        (smallLink a b).overtaken.delivered = [smallFrame 1] ∧
        (smallLink a b).overtaken.overtaken.delivered = [smallFrame 1])) = true := by
    decide +kernel
  obtain ⟨x,a,b,-,-,ha,hb,run⟩ := exists_of_sessions h
  obtain ⟨keys,held,run⟩ := of_decide_eq_true run
  have reached : (smallLink a b).Reachable primitives := .send (.send (.start ha hb keys.1) [7] []) [7] []
  exact ⟨_,reached.deliver aeadLaws held,run⟩

end SmallLink

namespace Link
variable {SecretKey PublicKey : Type} {P : Primitives SecretKey PublicKey} {l : Link PublicKey}

/-- No nonce is used twice, and whatever the network repeats, reorders or makes up, each
message is handed up at most once, as it was sealed. -/
theorem reachable_delivers_once (h : Reachable P l) :
    l.sent.Pairwise (fun f g => f.counter < g.counter) ∧ (∀ f ∈ l.delivered, f ∈ l.sent) ∧ l.seen.Nodup :=
  ⟨h.sound.increasing,h.sound.genuine,h.sound.once⟩

theorem smallLink_delivers_once : ∃ l : Link SmallGroup.Key, l.sent = [smallFrame 0,smallFrame 1] ∧
    l.overtaken.delivered = [smallFrame 1] ∧ (∀ f ∈ l.overtaken.delivered, f ∈ l.overtaken.sent) ∧
    l.overtaken.seen.Nodup := by
  obtain ⟨l,reached,sent,-,again⟩ := exists_smallLink
  have held : smallFrame 1 ∈ l.sent := by simp [sent]
  exact ⟨l,sent,again,(reachable_delivers_once (reached.deliver SmallGroup.aeadLaws held)).2⟩

/-- A sealed frame the network has kept back is still accepted while nothing delivered
is 8192 counters ahead of it: what was refused in between does not count. -/
theorem reachable_delivers_delayed (aead : P.AeadLaws) (h : Reachable P l) {f : Frame} (hf : f ∈ l.sent)
    (waiting : f ∉ l.delivered) (near : ∀ g ∈ l.delivered, g.counter < f.counter+8192) :
    (l.receive P f.ciphertext f.counter f.aad).delivered = l.delivered ++ [f] := by
  have sound := h.sound
  have distinct : (l.sent.map Frame.counter).Nodup := sound.increasing.map _ fun _ _ => Nat.ne_of_lt
  have unseen : f.counter ∉ acceptedSet l.seen := by
    rintro ⟨before,after,split,-⟩
    have old : f.counter ∈ l.seen := by simp [split]
    obtain ⟨g,hg,same⟩ := mem_map.mp old
    exact waiting (inj_on_of_nodup_map distinct (sound.genuine g hg) hf same ▸ hg)
  have top : largestAccepted l.seen < f.counter+8192 :=
    largestAccepted_lt (Nat.succ_pos _) (by simpa [seen] using near)
  have fresh : l.receiver.replayWindow.check f.counter = true := by
    have small := Nat.lt_of_lt_of_le (sound.below f hf) sound.room
    have size : replayWindowSize = 8192 := rfl
    rw [sound.window,check_acceptAll]
    exact ⟨by omega,(Nat.lt_or_ge _ _).imp id fun _ => ⟨by omega,unseen⟩⟩
  simp only [Link.receive,NoiseSession.decryptWithReplayCheckAndAad,fresh,if_true,sound.opens aead hf]

theorem smallLink_delivers_delayed : ∃ l : Link SmallGroup.Key, l.delivered = [smallFrame 1] ∧
    (l.receive SmallGroup.primitives (smallFrame 0).ciphertext 0 []).delivered =
      [smallFrame 1,smallFrame 0] := by
  obtain ⟨l,reached,sent,delivered,-⟩ := exists_smallLink
  have delayed := reachable_delivers_delayed SmallGroup.aeadLaws reached (f := smallFrame 0) (by simp [sent])
    (by rw [delivered]; decide) (by rw [delivered]; decide)
  rw [delivered] at delayed
  exact ⟨l,delivered,delayed⟩

end Link

section OwnerWindow
open Dataplane (delivered windowAfter Admissible)

/-- A counter only the session's window has let in is more than 8128 behind. -/
structure Tracked (calls : List Nat) : Prop where
  sub : ∀ c ∈ delivered calls, c ∈ acceptedSet calls
  behind : ∀ c ∈ acceptedSet calls, c ∈ delivered calls ∨ c+8128 < largestAccepted calls
  highest : largestAccepted calls ∈ delivered calls ∨ delivered calls = [] ∧ largestAccepted calls = 0

variable {calls : List Nat}

theorem Tracked.admissible_iff (h : Tracked calls) (c : Nat) :
    Admissible (windowAfter calls) (delivered calls) c ↔
    c ≠ u64Max ∧ (largestAccepted calls < c ∨ largestAccepted calls-c ≤ 8128 ∧ c ∉ delivered calls) := by
  have rep := Dataplane.acceptAll_represents calls
  unfold Dataplane.Represents at rep
  unfold Admissible
  cases known : (windowAfter calls).highest with
  | none =>
    simp only [known] at rep
    have zero : largestAccepted calls = 0 := by simpa [rep.1] using h.highest
    simp [rep.1,zero,Nat.pos_iff_ne_zero]
  | some n =>
    simp only [known] at rep
    have some : delivered calls ≠ [] := ne_nil_of_mem rep.1
    have top := (acceptAll_represents calls).le_highest n (h.sub n rep.1)
    have same := Nat.le_antisymm top (rep.2.1 _ (h.highest.resolve_right fun none => some none.1))
    have size : Dataplane.replayWindowSize = 8128 := rfl
    simp [some,same,size]

theorem accept_eq_true_iff (calls : List Nat) (c : Nat) :
    ((windowAfter calls).accept c).1 = true ↔ Admissible (windowAfter calls) (delivered calls) c := by
  rcases Dataplane.accept_cases (Dataplane.acceptAll_represents calls) c with ⟨good,yes,-⟩ | ⟨bad,no⟩
  · simp [good,yes]
  · simp [bad,no]

theorem windows_tracked (calls : List Nat) : Tracked calls := by
  induction calls using List.reverseRecOn with
  | nil => exact ⟨by simp [delivered,Dataplane.acceptAll],by simp [acceptedSet_nil],.inr ⟨rfl,rfl⟩⟩
  | append_singleton calls c ih =>
    have step : delivered (calls ++ [c]) =
        if ((windowAfter calls).accept c).1 = true then delivered calls ++ [c] else delivered calls := by
      rw [delivered,Dataplane.acceptAll,foldl_append]
      rfl
    have verdict := (accept_eq_true_iff calls c).trans (ih.admissible_iff c)
    have top := largestAccepted_snoc calls c
    have size : replayWindowSize = 8192 := rfl
    refine ⟨fun d hd => ?_,fun d hd => ?_,?_⟩
    · rw [mem_acceptedSet_snoc]
      unfold OlderThanWindow
      have := ih.sub d
      grind
    · rw [mem_acceptedSet_snoc] at hd
      unfold OlderThanWindow at hd
      have := ih.behind d
      grind
    · have := ih.highest
      grind

/-- The window of the dataplane lets through what that of the session does, but for the
counters from 8129 to 8191 behind the highest. -/
theorem windows_agree (calls : List Nat) (c : Nat) :
    ((windowAfter calls).accept c).1 = true ↔
      (ReplayWindow.acceptAll calls).check c = true ∧ largestAccepted calls-c ≤ 8128 := by
  have h := windows_tracked calls
  have size : replayWindowSize = 8192 := rfl
  rw [accept_eq_true_iff,h.admissible_iff,check_acceptAll]
  by_cases near : largestAccepted calls-c ≤ 8128
  · have same : c ∈ acceptedSet calls ↔ c ∈ delivered calls :=
      ⟨fun old => (h.behind c old).resolve_right (by omega),h.sub c⟩
    have inside : largestAccepted calls-c < replayWindowSize := by omega
    simp [near,same,inside]
  · simp only [near,false_and,or_false,and_false,iff_false]
    omega

end OwnerWindow

end Fips.Noise
