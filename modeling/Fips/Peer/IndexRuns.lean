import Fips.Peer.IndexOwners

set_option autoImplicit false

/-! Receive indices are neither leaked nor shared in any run of the lifecycle. -/

namespace Fips.Peer

open OrderedMap ActivePeer List Option

variable {S H : Type}

namespace Node

variable {s s' : Node S H} {addr : NodeAddr}

section Operations

variable {p p' : ActivePeer S H}

theorem Sound.mem_dispatchKeys (sound : s.Sound) (found : s.active.get? addr = some p) {key : SessionKey} :
    s.bySessionIndex.get? key = some addr ↔ key ∈ p.dispatchKeys := by
  rw [sound.dispatch,keys_of_get? found]

theorem Sound.unregistered (sound : s.Sound) (found : s.active.get? addr = some p) {key : SessionKey}
    (member : (ofLex key).2 ∈ p.indices) (unlisted : key ∉ p.dispatchKeys) :
    s.bySessionIndex.get? key = none := by
  cases at' : s.bySessionIndex.get? key with
  | none => rfl
  | some b =>
    have other := index_of_mem_keys ((sound.dispatch key b).mp at')
    have same := sound.apart b addr _ other (held_of_get? found ▸ member)
    exact absurd ((sound.mem_dispatchKeys found).mp (same ▸ at')) unlisted

structure Taken (s s' : Node S H) (addr : NodeAddr) (ins : List SessionIndex) : Prop where
  active : s'.active = s.active
  dispatch : s'.bySessionIndex = s.bySessionIndex
  taken : s'.taken = s.taken ++ ins.map (Prod.mk addr)
  freed : s'.freed = s.freed
  inUse : ∀ i, i ∈ s'.indexAllocator.inUse ↔ i ∈ s.indexAllocator.inUse ∨ i ∈ ins
  fresh : ins.Nodup ∧ ∀ i ∈ ins, ∀ b, i ∉ s.held b

theorem Taken.refl (s : Node S H) (addr : NodeAddr) : Taken s s addr [] := by
  constructor <;> simp

variable {ins : List SessionIndex} {s₂ : Node S H}

/-- After some indices were taken for it, a peer `p'` stands in the place of `p` and gives some indices
back. -/
theorem Taken.put (taken : Taken s s' addr ins) (sound : s.Sound) (found : s.active.get? addr = some p)
    (shaped : p'.Shaped) (outs : List SessionIndex) (kept : (ins ++ p.indices).Perm (outs ++ p'.indices))
    (active : s₂.active = s'.active.insert addr p') (same : s₂.taken = s'.taken)
    (freed : s₂.freed = s'.freed ++ outs.map (Prod.mk addr))
    (inUse : ∀ i, i ∈ s₂.indexAllocator.inUse ↔ i ∈ s'.indexAllocator.inUse ∧ i ∉ outs)
    (dispatch : ∀ key, (s.bySessionIndex.get? key = some addr ↔ key ∈ p.dispatchKeys) →
      s₂.bySessionIndex.get? key = if key ∈ p'.dispatchKeys then some addr else if key ∈ p.dispatchKeys then
        none else s.bySessionIndex.get? key) : s₂.Sound := by
  refine sound.moved (Moved.of_set ins outs found (taken.active ▸ active) shaped (same.trans taken.taken)
    (taken.freed ▸ freed) (fun i => ?_) taken.fresh kept fun key =>
      dispatch key (sound.mem_dispatchKeys found))
  rw [inUse,taken.inUse]

theorem Taken.setPeer (taken : Taken s s' addr ins) (sound : s.Sound) (found : s.active.get? addr = some p)
    (shaped : p'.Shaped) (kept : (ins ++ p.indices).Perm p'.indices)
    (keys : ∀ key, key ∈ p'.dispatchKeys ↔ key ∈ p.dispatchKeys) : (s'.setPeer addr p').Sound := by
  refine taken.put sound found shaped [] kept rfl rfl (by simp [Node.setPeer])
    (by simp [Node.setPeer]) fun key known => ?_
  simp only [Node.setPeer,taken.dispatch]
  grind

theorem Sound.setPeer (sound : s.Sound) (found : s.active.get? addr = some p) (shaped : p'.Shaped)
    (indices : p'.indices = p.indices) (keys : p'.dispatchKeys = p.dispatchKeys) :
    (s.setPeer addr p').Sound :=
  (Taken.refl s addr).setPeer sound found shaped (by simp [indices]) (by simp [keys])

variable {t : TransportId} {i : SessionIndex}

/-- A peer that drops at most one index, with the key it had on a transport. -/
theorem Sound.dropIndex (sound : s.Sound) (found : s.active.get? addr = some p) (shaped : p'.Shaped)
    (gone : Option SessionIndex) (kept : p.indices.Perm (gone.toList ++ p'.indices))
    (keys : ∀ key, key ∈ p'.dispatchKeys ↔ key ∈ p.dispatchKeys ∧ ∀ i, gone = some i → key ≠ toLex (t,i)) :
    (gone.elim (s.setPeer addr p') ((s.setPeer addr p').cleanupIndex addr (some t))).Sound := by
  cases gone with
  | none => exact (Taken.refl s addr).setPeer sound found shaped kept (by simpa using keys)
  | some i =>
    have member : i ∈ p.indices := kept.mem_iff.mpr mem_cons_self
    refine (Taken.refl s addr).put sound found shaped [i] kept rfl rfl rfl ?_ fun key known => ?_
    · simp [Node.cleanupIndex,Node.setPeer,deregisterSessionIndex,freeFor,IndexAllocator.free,and_comm]
    · have unlisted : toLex (t,i) ∉ p.dispatchKeys → s.bySessionIndex.get? (toLex (t,i)) = none :=
        sound.unregistered found member
      simp only [elim_some,Node.cleanupIndex,Node.setPeer,deregisterSessionIndex,freeFor,get?_erase]
      by_cases same : key = toLex (t,i)
      · grind
      · grind

theorem Sound.indices_nodup (sound : s.Sound) (found : s.active.get? addr = some p) : p.indices.Nodup :=
  held_of_get? found ▸ sound.distinct addr

theorem Sound.abandonFmpRekeyForPeer (sound : s.Sound) (addr : NodeAddr) :
    (s.abandonFmpRekeyForPeer addr).Sound := by
  cases found : s.active.get? addr with
  | none => simpa only [Node.abandonFmpRekeyForPeer,found] using sound
  | some p =>
    have before := sound.shaped addr p found
    obtain ⟨t,transport⟩ := isSome_iff_exists.mp before.transport
    have exclusive := before.exclusive
    have shaped : p.abandonRekey.2.Shaped :=
      ⟨before.transport,before.current,rfl,rfl,.inl rfl,before.previous⟩
    -- at most one of the two indices is there, so the one returned is all that is dropped
    have kept : p.indices.Perm ((p.rekeyOurIndex.or p.pendingOurIndex).toList ++
        p.abandonRekey.2.indices) := by
      rw [perm_iff_count]
      rcases exclusive with rekey | pending
      · simp only [indices,abandonRekey,count_append,rekey,none_or,toList_none,
          count_nil]
        omega
      · simp only [indices,abandonRekey,count_append,pending,or_none,toList_none,
          count_nil]
        omega
    have dropped := sound.dropIndex (t := t) found shaped _ kept fun key => by
      have apart := nodup_indices.mp (sound.indices_nodup found)
      rw [ActivePeer.mem_dispatchKeys,ActivePeer.mem_dispatchKeys]
      simp only [Ne,key_eq_toLex,abandonRekey]
      grind
    cases gone : p.rekeyOurIndex.or p.pendingOurIndex <;> rw [gone] at dropped <;>
      simpa only [Node.abandonFmpRekeyForPeer,found,abandonRekey,gone,transport,elim_none,
        elim_some] using dropped

theorem Sound.retireFmpRekeyDrainForDeadPath (sound : s.Sound) (addr : NodeAddr) :
    (s.retireFmpRekeyDrainForDeadPath addr).Sound := by
  cases found : s.active.get? addr with
  | none => simpa only [Node.retireFmpRekeyDrainForDeadPath,found] using sound
  | some p =>
    have before := sound.shaped addr p found
    have shaped : p.completeDrain.2.Shaped :=
      ⟨before.transport,before.current,before.pending,before.rekey,before.exclusive,rfl⟩
    obtain ⟨t,transport⟩ : ∃ t, p.previousTransportId.or p.transportId = some t :=
      isSome_iff_exists.mp (by simp [before.transport])
    have kept : p.indices.Perm (p.previousOurIndex.toList ++ p.completeDrain.2.indices) := by
      rw [perm_iff_count]
      simp only [indices,completeDrain,count_append,toList_none,count_nil]
      omega
    have dropped := sound.dropIndex (t := t) found shaped _ kept fun key => by
      have apart := nodup_indices.mp (sound.indices_nodup found)
      rw [ActivePeer.mem_dispatchKeys,ActivePeer.mem_dispatchKeys]
      simp only [Ne,key_eq_toLex,completeDrain]
      grind
    cases previous : p.previousOurIndex <;> rw [previous] at dropped <;>
      simpa only [Node.retireFmpRekeyDrainForDeadPath,found,completeDrain,previous,transport,
        elim_none,elim_some] using dropped

theorem Sound.completeDueFmpRekeyDrain (sound : s.Sound) (addr : NodeAddr) (now drain : Nat) :
    (s.completeDueFmpRekeyDrain addr now drain).Sound := by
  have retired := sound.retireFmpRekeyDrainForDeadPath addr
  cases found : s.active.get? addr with
  | none => simpa only [Node.completeDueFmpRekeyDrain,found] using sound
  | some p =>
    obtain ⟨t,transport⟩ := isSome_iff_exists.mp (sound.shaped addr p found).transport
    simp only [Node.retireFmpRekeyDrainForDeadPath,found,completeDrain] at retired
    simp only [Node.completeDueFmpRekeyDrain,found,completeDrain]
    split
    · exact sound
    · cases previous : p.previousOurIndex with
      | none => simpa only [previous] using retired
      | some i =>
        cases drained : p.previousTransportId.or p.transportId with
        | none => simp [transport] at drained
        | some t' => simpa only [previous,drained] using retired

theorem allocate_eq {a a' : IndexAllocator} {draws : List SessionIndex} (h : a.allocate draws = some (i,a')) :
    i ∉ a.inUse ∧ a' = { a with inUse := insert i a.inUse } := by
  simp only [IndexAllocator.allocate] at h
  split at h
  · exact absurd h (by simp)
  · next j found =>
    obtain ⟨rfl,rfl⟩ : j = i ∧ _ := by simpa using h
    exact ⟨by simpa using find?_some found,rfl⟩

theorem Sound.allocateFor (sound : s.Sound) {draws : List SessionIndex}
    (h : s.allocateFor addr draws = some (i,s')) :
    Taken s s' addr [i] := by
  simp only [Node.allocateFor] at h
  split at h
  · exact absurd h (by simp)
  · next j allocator allocated =>
    obtain ⟨rfl,rfl⟩ : j = i ∧ _ := by simpa using h
    obtain ⟨unused,rfl⟩ := allocate_eq allocated
    refine ⟨rfl,rfl,rfl,rfl,fun k => ?_,nodup_singleton j,
      by simpa using fun b held => unused (sound.used b j held)⟩
    simp [or_comm]

theorem unheld_iff : s.unheld i = true ↔ ∀ b, i ∉ s.held b := by
  simp only [unheld,List.all_eq_true,decide_eq_true_eq,mem_values]
  constructor
  · intro apart b member
    cases found : s.active.get? b with
    | none => simp [held,found] at member
    | some p => exact apart p ⟨b,found⟩ (held_of_get? found ▸ member)
  · rintro apart p ⟨b,found⟩ member
    exact apart b (held_of_get? found ▸ member)

theorem Taken.of_takeOver (used : i ∈ s.indexAllocator.inUse) (unheld : s.unheld i) :
    Taken s (s.takeOver addr i) addr [i] := by
  refine ⟨rfl,rfl,rfl,rfl,fun j => ?_,nodup_singleton i,by simpa using unheld_iff.mp unheld⟩
  simp only [takeOver,mem_singleton,iff_self_or]
  rintro rfl
  exact used

theorem Taken.freeFor (taken : Taken s s' addr [i]) (sound : s.Sound) : (s'.freeFor addr i).Sound := by
  have active : (s'.freeFor addr i).active = s.active := taken.active
  have held : (s'.freeFor addr i).held addr = s.held addr := by simp only [Node.held,active]
  have keys : (s'.freeFor addr i).keys addr = s.keys addr := by simp only [Node.keys,active]
  have moved : Moved s (s'.freeFor addr i) addr [i] [i] := by
    refine ⟨fun b _ => by rw [active],fun p found => sound.shaped addr p (active ▸ found),taken.taken,
      congrArg (· ++ _) taken.freed,fun j => ?_,taken.fresh,by rw [held],fun key => ?_⟩
    · simp only [Node.freeFor,IndexAllocator.free,Finset.mem_erase,taken.inUse,mem_singleton]
      exact and_comm
    · have before := sound.dispatch key addr
      rw [keys]
      simp only [Node.freeFor,taken.dispatch]
      grind
  exact sound.moved moved

theorem Sound.initiateRekey (sound : s.Sound) (draws : List SessionIndex) (message1 : Option (H × List UInt8))
    (sent : Bool) (nextResend : Nat)
    (idle : (s.active.get? addr).any fun p => !p.rekeyInProgress && p.pendingNewSession.isNone) :
    (s.initiateRekey addr draws message1 sent nextResend).Sound := by
  obtain ⟨p,found,quiet⟩ : ∃ p, s.active.get? addr = some p ∧
    (!p.rekeyInProgress && p.pendingNewSession.isNone) := by
    cases found : s.active.get? addr with
    | none => simp [found] at idle
    | some p => exact ⟨p,rfl,by simpa only [found,any_some] using idle⟩
  obtain ⟨notRekeying,notPending⟩ := Bool.and_eq_true_iff.mp quiet
  have before := sound.shaped addr p found
  have rekey : p.rekeyOurIndex = none := by simpa [before.rekey] using notRekeying
  have pending : p.pendingOurIndex = none := by
    have none := before.pending
    rw [isNone_iff_eq_none.mp notPending] at none
    simpa using none.symm
  simp only [Node.initiateRekey,found]
  split
  · exact sound
  cases allocated : s.allocateFor addr draws with
  | none => exact sound
  | some result =>
    obtain ⟨i,s₁⟩ := result
    have taken := sound.allocateFor allocated
    cases message1 with
    | none => exact taken.freeFor sound
    | some message =>
      obtain ⟨handshake,wireMsg1⟩ := message
      have started : (s₁.setPeer addr (p.setRekeyState handshake i wireMsg1 nextResend)).Sound := by
        refine taken.setPeer sound found ⟨before.transport,before.current,before.pending,rfl,
          .inr pending,before.previous⟩ ?_
          fun _ => .rfl
        rw [perm_iff_count]
        simp only [indices,setRekeyState,count_append,rekey,
          toList_none,toList_some,count_nil]
        omega
      cases sent with
      | true => exact started
      | false => exact started.abandonFmpRekeyForPeer addr

/-- A pending session takes the index that was allocated for it or that its rekey had. -/
theorem Taken.install (taken : Taken s s' addr ins) (sound : s.Sound) (found : s.active.get? addr = some p)
    (origin : ins ++ p.rekeyOurIndex.toList = [i]) (pending : p.pendingOurIndex = none) (session : S)
    (theirIndex : SessionIndex) (initiatedByLocal : Bool) (now : Nat) :
    ∃ s₂, s'.installPendingRekeySessionAndIndex addr session i theirIndex initiatedByLocal now =
      some s₂ ∧ s₂.Sound := by
  have before := sound.shaped addr p found
  obtain ⟨t,transport⟩ := isSome_iff_exists.mp before.transport
  have installed : s'.installPendingRekeySessionAndIndex addr session i theirIndex initiatedByLocal now =
      some ((s'.setPeer addr (p.setPendingSession session i theirIndex
        initiatedByLocal now)).insertSessionIndex
        (toLex (t,i)) addr) := by
    simp only [installPendingRekeySessionAndIndex,taken.active,found,transport]
  have shaped : (p.setPendingSession session i theirIndex initiatedByLocal now).Shaped :=
    ⟨before.transport,before.current,rfl,rfl,.inl rfl,before.previous⟩
  refine ⟨_,installed,taken.put sound found shaped [] ?_ rfl rfl (by simp [Node.setPeer,insertSessionIndex])
    (by simp [Node.setPeer,insertSessionIndex]) fun key known => ?_⟩
  · rw [perm_iff_count]
    intro j
    have same := congrArg (count j) origin
    simp only [indices,setPendingSession,count_append,pending,
      toList_some,count_nil] at same ⊢
    omega
  · simp only [Node.setPeer,insertSessionIndex,taken.dispatch,get?_insert,key_eq_toLex]
    simp only [mem_dispatchKeys,setPendingSession] at known ⊢
    grind

theorem abandonFmpRekeyForPeer_get? (found : s.active.get? addr = some p) :
    (s.abandonFmpRekeyForPeer addr).active.get? addr = some p.abandonRekey.2 := by
  have set : (s.setPeer addr p.abandonRekey.2).active.get? addr = some p.abandonRekey.2 := by
    rw [Node.setPeer,get?_insert,if_pos rfl]
  simp only [Node.abandonFmpRekeyForPeer,found]
  generalize p.abandonRekey = abandoned at set
  obtain ⟨index,p'⟩ := abandoned
  cases index with
  | none => exact set
  | some i => cases p.transportId <;> exact set

theorem Sound.respondToRekeyMsg1 (sound : s.Sound)
    (idle : ∀ p, s.active.get? addr = some p → p.rekeyOurIndex = none ∧ p.pendingOurIndex = none)
    (senderIdx : SessionIndex) (draws : List SessionIndex) (session : Option S)
    (staged sent : Bool) (now : Nat) :
    (s.respondToRekeyMsg1 addr senderIdx draws session staged sent now).Sound := by
  simp only [Node.respondToRekeyMsg1]
  cases allocated : s.allocateFor addr draws with
  | none => exact sound
  | some result =>
    obtain ⟨i,s₁⟩ := result
    have taken := sound.allocateFor allocated
    cases session with
    | none => exact taken.freeFor sound
    | some session =>
      cases found : s.active.get? addr with
      | none =>
        simp only [installPendingRekeySessionAndIndex,taken.active,found]
        exact taken.freeFor sound
      | some p =>
        obtain ⟨rekey,pending⟩ := idle p found
        obtain ⟨s₂,installed,sound₂⟩ := taken.install (i := i) sound found (by simp [rekey]) pending session
          senderIdx false now
        simp only [installed]
        split
        · exact sound₂
        · exact sound₂.abandonFmpRekeyForPeer addr

theorem Sound.handleRekeyMsg1 (sound : s.Sound) (addr : NodeAddr) (senderIdx : SessionIndex)
    (draws : List SessionIndex) (session : Option S) (staged sent : Bool) (now : Nat) :
    (s.handleRekeyMsg1 addr senderIdx draws session staged sent now).Sound := by
  cases found : s.active.get? addr with
  | none => simpa only [Node.handleRekeyMsg1,found] using sound
  | some p =>
    have shaped := sound.shaped addr p found
    -- an abandoned rekey leaves neither a rekey nor a pending index
    have abandoned : ∀ {s : Node S H} {p}, s.active.get? addr = some p →
        ∀ q, (s.abandonFmpRekeyForPeer addr).active.get? addr = some q →
          q.rekeyOurIndex = none ∧ q.pendingOurIndex = none := by
      intro s p found q after
      rw [abandonFmpRekeyForPeer_get? found] at after
      cases after
      exact ⟨rfl,rfl⟩
    simp only [Node.handleRekeyMsg1,found]
    split
    · exact sound
    by_cases orphaned : p.pendingNewSession.isSome = true
    · have sound₁ := sound.abandonFmpRekeyForPeer addr
      split
      · split
        · exact sound₁
        · exact (sound₁.abandonFmpRekeyForPeer addr).respondToRekeyMsg1
            (abandoned (abandonFmpRekeyForPeer_get? found)) senderIdx draws session staged sent now
      · exact sound₁.respondToRekeyMsg1 (abandoned found) senderIdx draws session staged sent now
    · split
      · split
        · exact sound
        · exact (sound.abandonFmpRekeyForPeer addr).respondToRekeyMsg1
            (abandoned found) senderIdx draws session
            staged sent now
      · next quiet =>
        refine sound.respondToRekeyMsg1 (fun q same => ?_) senderIdx draws session staged sent now
        obtain rfl : p = q := Option.some.inj (found.symm.trans same)
        rw [shaped.rekey] at quiet
        rw [shaped.pending] at orphaned
        exact ⟨by simpa using quiet,by simpa using orphaned⟩

theorem completeRekeyMsg2_snd (exchange : Exchange H S) (p : ActivePeer S H) (msg2 : List UInt8) :
    (p.completeRekeyMsg2 exchange msg2).2 =
      { p with
        rekeyHandshake := (p.completeRekeyMsg2 exchange msg2).2.rekeyHandshake
        rekeyMsg1 := (p.completeRekeyMsg2 exchange msg2).2.rekeyMsg1
        rekeyMsg1NextResend := (p.completeRekeyMsg2 exchange msg2).2.rekeyMsg1NextResend
        rekeyMsg1ResendCount := (p.completeRekeyMsg2 exchange msg2).2.rekeyMsg1ResendCount } := by
  simp only [completeRekeyMsg2]
  repeat' split
  all_goals rfl

theorem Sound.handleRekeyMsg2 (sound : s.Sound) (exchange : Exchange H S)
    (receiverIdx senderIdx : SessionIndex) (msg2 : List UInt8) (now : Nat) :
    (s.handleRekeyMsg2 exchange receiverIdx senderIdx msg2 now).Sound := by
  cases matched : s.rekeyingPeer receiverIdx with
  | none => simpa only [Node.handleRekeyMsg2,matched] using sound
  | some result =>
    obtain ⟨addr,p⟩ := result
    have found : s.active.get? addr = some p := mem_entries.mp (mem_of_find?_eq_some matched)
    have answered : p.rekeyOurIndex = some receiverIdx := by
      have rekeying := find?_some matched
      simp only [Bool.and_eq_true,decide_eq_true_eq] at rekeying
      exact rekeying.2
    have before := sound.shaped addr p found
    have kept := completeRekeyMsg2_snd exchange p msg2
    have sound₁ : (s.setPeer addr (p.completeRekeyMsg2 exchange msg2).2).Sound := by
      rw [kept]
      exact sound.setPeer found
        { before with } rfl rfl
    have rekey : (p.completeRekeyMsg2 exchange msg2).2.rekeyOurIndex = some receiverIdx := by
      rw [kept]
      exact answered
    simp only [Node.handleRekeyMsg2,matched]
    generalize p.completeRekeyMsg2 exchange msg2 = completed at sound₁ rekey
    obtain ⟨session,p'⟩ := completed
    replace rekey : p'.rekeyOurIndex = some receiverIdx := rekey
    cases session with
    | none =>
      simp only
      split
      · exact sound₁
      · exact sound₁.abandonFmpRekeyForPeer addr
    | some session =>
      have found₁ : (s.setPeer addr p').active.get? addr = some p' := by
        rw [Node.setPeer,get?_insert,if_pos rfl]
      obtain ⟨s₂,installed,sound₂⟩ := (Taken.refl _ addr).install (i := receiverIdx) sound₁ found₁
        (by simp [rekey])
        ((sound₁.shaped addr p' found₁).exclusive.resolve_left (by simp [rekey])) session senderIdx true now
      simp only [rekey,getD_some,installed]
      exact sound₂

theorem retireSuperseded_get? (addr : NodeAddr) (retained : List PeerSessionIndex)
    (acc : OrderedMap SessionKey NodeAddr × List PeerSessionIndex) (o : PeerSessionIndex) (key : SessionKey) :
    (retireSuperseded addr retained acc o).1.get? key =
      if o.key = key ∧ (¬ ∃ r ∈ retained, r.key = key) ∧ acc.1.get? key = some addr then none
      else acc.1.get? key := by
  simp only [retireSuperseded]
  by_cases same : o.key = key
  · split <;> grind [get?_erase]
  · split
    · rw [get?_erase,if_neg (Ne.symm same),if_neg (fun h => same h.1)]
    · rw [if_neg (fun h => same h.1)]

/-- What retiring does to the dispatch table, and which of the superseded entries it returns. -/
theorem foldl_retireSuperseded (addr : NodeAddr) (retained old : List PeerSessionIndex)
    (acc : OrderedMap SessionKey NodeAddr × List PeerSessionIndex)
    (distinct : ((acc.2 ++ old).map PeerSessionIndex.index).Nodup) :
    (∀ key, (old.foldl (retireSuperseded addr retained) acc).1.get? key =
      if (∃ r ∈ old, r.key = key) ∧ (¬ ∃ r ∈ retained, r.key = key) ∧ acc.1.get? key = some addr then none
      else acc.1.get? key) ∧
    (old.foldl (retireSuperseded addr retained) acc).2 =
      acc.2 ++ old.filter fun o => !(retained.any fun r => r.index = o.index) := by
  induction old generalizing acc with
  | nil => simp
  | cons o old ih =>
    have unretired : (acc.2.any fun r => r.index = o.index) = false := by
      rw [map_append,nodup_append] at distinct
      simp only [List.any_eq_false,decide_eq_true_eq]
      intro r member
      exact distinct.2.2 _ (mem_map_of_mem member) _ (mem_map_of_mem mem_cons_self)
    have head : (retireSuperseded addr retained acc o).2 =
        acc.2 ++ [o].filter fun o => !(retained.any fun r => r.index = o.index) := by
      simp only [retireSuperseded,unretired,filter_singleton]
      cases retained.any fun r => r.index = o.index <;> simp
    have rest : (((retireSuperseded addr retained acc o).2 ++ old).map PeerSessionIndex.index).Nodup := by
      refine List.Nodup.sublist (List.Sublist.map _ ?_) distinct
      rw [head,append_assoc]
      exact (List.Sublist.refl acc.2).append (filter_sublist.append (List.Sublist.refl old))
    obtain ⟨tables,retired⟩ := ih (retireSuperseded addr retained acc o) rest
    rw [foldl_cons]
    refine ⟨fun key => ?_,?_⟩
    · rw [tables key,retireSuperseded_get?]
      simp only [mem_cons,exists_eq_or_imp]
      by_cases same : o.key = key <;> by_cases later : ∃ r ∈ old, r.key = key <;> simp only [same] <;> grind
    · rw [retired,head,append_assoc,← filter_append]
      rfl

/-- Listed indices go back to the allocator, while the dispatch table may lose their keys. -/
theorem freeListed_eq {f : Node S H → PeerSessionIndex → Node S H}
    (forget : OrderedMap SessionKey NodeAddr → SessionKey → OrderedMap SessionKey NodeAddr)
    (each : ∀ s r, f s r = { s with bySessionIndex := forget s.bySessionIndex r.key }.freeFor addr r.index)
    (s : Node S H) (l : List PeerSessionIndex) :
    l.foldl f s =
      { s with
        bySessionIndex := (l.map PeerSessionIndex.key).foldl forget s.bySessionIndex
        indexAllocator := (l.foldl f s).indexAllocator
        freed := s.freed ++ (l.map PeerSessionIndex.index).map (Prod.mk addr) } ∧
    ∀ i, i ∈ (l.foldl f s).indexAllocator.inUse ↔ i ∈ s.indexAllocator.inUse ∧
      i ∉ l.map PeerSessionIndex.index := by
  induction l generalizing s with
  | nil => simp
  | cons r l ih =>
    obtain ⟨eq,inUse⟩ := ih (f s r)
    simp only [foldl_cons]
    refine ⟨?_,fun i => ?_⟩
    · rw [eq]
      simp [each,Node.freeFor]
    · rw [inUse i]
      simp only [each,Node.freeFor,IndexAllocator.free,Finset.mem_erase,map_cons,mem_cons,not_or]
      constructor
      · rintro ⟨⟨other,used⟩,kept⟩
        exact ⟨used,other,kept⟩
      · rintro ⟨used,other,kept⟩
        exact ⟨⟨other,used⟩,kept⟩

theorem freeRetired_eq (s : Node S H) (addr : NodeAddr) (retired : List PeerSessionIndex) :
    s.freeRetiredPeerSessionIndices addr retired =
      { s with
        indexAllocator := (s.freeRetiredPeerSessionIndices addr retired).indexAllocator
        freed := s.freed ++ (retired.map PeerSessionIndex.index).map (Prod.mk addr) } ∧
    ∀ i, i ∈ (s.freeRetiredPeerSessionIndices addr retired).indexAllocator.inUse ↔
      i ∈ s.indexAllocator.inUse ∧ i ∉ retired.map PeerSessionIndex.index := by
  have freed := freeListed_eq (f := fun s r => s.freeFor addr r.index) (fun table _ => table)
    (fun _ _ => rfl) s retired
  rw [foldl_fixed] at freed
  exact freed

/-- What a peer that puts `p'` in the place of `p` retires: the indices it no longer has, and their keys. -/
theorem Sound.retireSuperseded (sound : s.Sound) (found : s.active.get? addr = some p) (shaped : p'.Shaped)
    (distinct : p'.indices.Nodup) (quiet : p'.rekeyOurIndex = none) (ins : List SessionIndex)
    (fresh : ins.Nodup ∧ ∀ i ∈ ins, i ∉ p.indices) (used : ∀ i ∈ ins, i ∈ p'.indices)
    (origin : ∀ i ∈ p'.indices, i ∈ ins ∨ i ∈ p.indices) (same : s'.bySessionIndex = s.bySessionIndex) :
    ∃ retired table, s'.retireSupersededSessionIndices addr p.sessionIndices p'.sessionIndices =
        (retired,{ s' with bySessionIndex := table }) ∧
      (ins ++ p.indices).Perm (retired.map PeerSessionIndex.index ++ p'.indices) ∧
      ∀ key, table.get? key = if key ∈ p'.dispatchKeys then s.bySessionIndex.get? key
        else if key ∈ p.dispatchKeys then none else s.bySessionIndex.get? key := by
  have before := sound.shaped addr p found
  have indices := before.map_index_sessionIndices (sound.indices_nodup found)
  obtain ⟨tables,retired⟩ :=
    foldl_retireSuperseded addr p'.sessionIndices p.sessionIndices (s'.bySessionIndex,[])
    (by simpa only [nil_append,indices] using sound.indices_nodup found)
  refine ⟨_,_,rfl,?_,fun key => ?_⟩
  · have kept : (p.sessionIndices.filter fun o => !(p'.sessionIndices.any fun r => r.index = o.index)).map
        PeerSessionIndex.index = p.indices.filter fun i => i ∉ p'.indices := by
      rw [← indices,← shaped.map_index_sessionIndices distinct,List.filter_map]
      congr 1
      apply filter_congr
      intro o _
      rw [Bool.eq_iff_iff]
      simp
    rw [retired,nil_append,kept,perm_ext_iff_of_nodup]
    · grind
    · exact List.Nodup.append fresh.1 (sound.indices_nodup found) fun i member => fresh.2 i member
    · refine List.Nodup.append ((sound.indices_nodup found).filter _) distinct fun i member => ?_
      simpa using (mem_filter.mp member).2
  · have known : s.bySessionIndex.get? key = some addr ↔ key ∈ p.dispatchKeys := sound.mem_dispatchKeys found
    rw [tables key]
    simp only [before.listed_key (sound.indices_nodup found),shaped.listed_key distinct,same]
    grind

theorem confirmPendingSession_shaped (before : p.Shaped) (distinct : p.indices.Nodup)
    {receivedKBit : Bool} {now : Nat} (confirmed : p.confirmPendingSession receivedKBit now = some p') :
    p'.Shaped ∧ p'.indices.Nodup ∧ p'.rekeyOurIndex = none ∧ (∀ i ∈ p'.indices, i ∈ p.indices) ∧
      ∀ key ∈ p'.dispatchKeys, key ∈ p.dispatchKeys := by
  simp only [confirmPendingSession] at confirmed
  split at confirmed
  · exact absurd confirmed (by simp)
  · next session pending =>
    cases confirmed
    have some := before.pending
    rw [pending,isSome_some,eq_comm,isSome_iff_exists] at some
    obtain ⟨i,index⟩ := some
    have rekey : p.rekeyOurIndex = none := before.exclusive.resolve_right (by simp [index])
    have apart := nodup_indices.mp distinct
    refine ⟨⟨before.transport,by simp [index],rfl,by simp [rekey],.inr rfl,?_⟩,?_,rekey,?_,?_⟩
    · simp only [before.transport,before.current]
    · rw [nodup_indices]
      grind
    · simp only [mem_indices]
      grind
    · simp only [mem_dispatchKeys]
      grind

theorem Sound.ensureCurrent (sound : s.Sound) (addr : NodeAddr) :
    s.ensureCurrentSessionIndexRegistered addr = s := by
  cases found : s.active.get? addr with
  | none => simp only [ensureCurrentSessionIndexRegistered,found,bind_none]
  | some p =>
    have shaped := sound.shaped addr p found
    obtain ⟨t,transport⟩ := isSome_iff_exists.mp shaped.transport
    obtain ⟨i,own⟩ := isSome_iff_exists.mp shaped.current
    have current : p.currentSessionIndex = some ⟨.current,toLex (t,i),i⟩ := by
      simp [currentSessionIndex,transport,own]
    have registered : s.bySessionIndex.get? (toLex (t,i)) = some addr :=
      (sound.mem_dispatchKeys found).mpr (ActivePeer.mem_dispatchKeys.mpr (.inl ⟨transport,.inl own⟩))
    simp only [ensureCurrentSessionIndexRegistered,found,bind_some,current,registered,if_true]

theorem Sound.confirmed (sound : s.Sound) (addr : NodeAddr) (receivedKBit : Bool) (now : Nat) :
    (s.finishConfirmation addr (s.confirmPendingPeerSession addr receivedKBit now)).Sound := by
  cases found : s.active.get? addr with
  | none => simpa only [confirmPendingPeerSession,found,finishConfirmation] using sound
  | some p =>
    cases pending : p.confirmPendingSession receivedKBit now with
    | none => simpa only [confirmPendingPeerSession,found,pending,finishConfirmation] using sound
    | some p' =>
      obtain ⟨shaped,distinct,quiet,origin,keys⟩ :=
        confirmPendingSession_shaped (sound.shaped addr p found) (sound.indices_nodup found) pending
      obtain ⟨retired,table,result,kept,tables⟩ := sound.retireSuperseded found shaped distinct quiet []
        ⟨.nil,forall_mem_nil _⟩ (forall_mem_nil _) (fun i member => .inr (origin i member))
        (rfl : (s.setPeer addr p').bySessionIndex = _)
      obtain ⟨eq,inUse⟩ := freeRetired_eq { s.setPeer addr p' with bySessionIndex := table } addr retired
      have freed : ({ s.setPeer addr p' with bySessionIndex := table }.freeRetiredPeerSessionIndices
        addr retired).Sound := by
        refine (Taken.refl s addr).put sound found shaped
          (retired.map PeerSessionIndex.index) kept ?_ ?_ ?_ inUse
          fun key known => ?_
        · rw [eq]
          rfl
        · rw [eq]
          rfl
        · rw [eq]
          rfl
        · grind
      simp only [confirmPendingPeerSession,found,pending,result,finishConfirmation]
      rw [freed.ensureCurrent]
      exact freed

theorem replaceSession_shaped {c : SessionIndex} (transport : p.transportId = some t)
    (current : p.ourIndex = some c) {r : Replacement S} (other : r.ourIndex ≠ c) (now : Nat) :
    let p' := (p.replaceSession r.session r.ourIndex r.theirIndex now).setCurrentAddr r.transportId r.addr
    p'.Shaped ∧ p'.indices = [r.ourIndex,c] ∧
      p'.dispatchKeys = [toLex (r.transportId,r.ourIndex),toLex (t,c)] := by
  refine ⟨⟨rfl,rfl,rfl,rfl,.inl rfl,?_⟩,?_,?_⟩
  · simp [setCurrentAddr,replaceSession,abandonRekey,current,transport,
      filter_some,other.symm]
  · simp [setCurrentAddr,replaceSession,abandonRekey,current,indices,other.symm]
  · simp [setCurrentAddr,replaceSession,abandonRekey,current,transport,
      dispatchKeys,filter_some,other.symm]

theorem Sound.replaced (sound : s.Sound) (found : s.active.get? addr = some p) {r : Replacement S}
    (used : r.ourIndex ∈ s.indexAllocator.inUse) (unheld : s.unheld r.ourIndex) (now : Nat) :
    ∃ retired s₂, (s.takeOver addr r.ourIndex).replaceCurrentSessionAndPath addr r now = some (retired,s₂) ∧
      (s₂.freeRetiredPeerSessionIndices addr retired).Sound := by
  have before := sound.shaped addr p found
  have taken : Taken s (s.takeOver addr r.ourIndex) addr [r.ourIndex] := .of_takeOver used unheld
  obtain ⟨t,transport⟩ := isSome_iff_exists.mp before.transport
  obtain ⟨c,current⟩ := isSome_iff_exists.mp before.current
  have held : c ∈ p.indices := mem_indices.mpr (.inl current)
  have absent : r.ourIndex ∉ p.indices := held_of_get? found ▸ unheld_iff.mp unheld addr
  have other : r.ourIndex ≠ c := fun same => absent (same ▸ held)
  obtain ⟨shaped,indices,keys⟩ := replaceSession_shaped transport current other now
  have quiet : ((p.replaceSession r.session r.ourIndex r.theirIndex now).setCurrentAddr
      r.transportId r.addr).rekeyOurIndex =
      none := rfl
  generalize replacement : (p.replaceSession r.session r.ourIndex r.theirIndex now).setCurrentAddr
    r.transportId r.addr = p'
    at shaped indices keys quiet
  have distinct : p'.indices.Nodup := by simp [indices,other]
  obtain ⟨retired,table,result,kept,tables⟩ := sound.retireSuperseded found shaped distinct quiet [r.ourIndex]
    ⟨nodup_singleton _,by simpa using absent⟩ (by simp [indices]) (by simp [indices,held])
    (rfl : ((s.takeOver addr r.ourIndex).setPeer addr p').bySessionIndex = _)
  let s₂ := Node.insertSessionIndex
    { (s.takeOver addr r.ourIndex).setPeer addr p' with bySessionIndex := table }
    (toLex (r.transportId,r.ourIndex)) addr
  have known : (s.takeOver addr r.ourIndex).active.get? addr = some p := found
  refine ⟨retired,s₂,by simp only [replaceCurrentSessionAndPath,known,replacement,result,s₂],?_⟩
  obtain ⟨eq,inUse⟩ := freeRetired_eq s₂ addr retired
  refine taken.put sound found shaped (retired.map PeerSessionIndex.index) kept ?_ ?_ ?_ inUse fun key _ => ?_
  · rw [eq]
    rfl
  · rw [eq]
    rfl
  · rw [eq]
    rfl
  · rw [eq]
    have registered : s.bySessionIndex.get? (toLex (t,c)) = some addr :=
      (sound.mem_dispatchKeys found).mpr (ActivePeer.mem_dispatchKeys.mpr (.inl ⟨transport,.inl current⟩))
    simp only [s₂,Node.insertSessionIndex,get?_insert]
    grind

/-- A peer that enters with the index of its finished handshake. -/
theorem Sound.inserted (sound : s.Sound) (absent : s.active.get? addr = none) {r : Replacement S}
    (used : r.ourIndex ∈ s.indexAllocator.inUse) (unheld : s.unheld r.ourIndex) :
    ((s.takeOver addr r.ourIndex).insertWithCurrentSessionIndex addr
      (.withSession r.session r.ourIndex r.theirIndex r.transportId r.addr)).Sound := by
  have taken : Taken s (s.takeOver addr r.ourIndex) addr [r.ourIndex] := .of_takeOver used unheld
  have entered : ((s.takeOver addr r.ourIndex).insertWithCurrentSessionIndex addr
      (.withSession r.session r.ourIndex r.theirIndex r.transportId r.addr)).active.get? addr =
        some (.withSession r.session r.ourIndex r.theirIndex r.transportId r.addr) := by
    show (OrderedMap.insert _ _ _).get? _ = _
    rw [get?_insert,if_pos rfl]
  have nothing : s.held addr = [] ∧ s.keys addr = [] := by simp [held,keys,absent]
  have moved : Moved s ((s.takeOver addr r.ourIndex).insertWithCurrentSessionIndex addr
      (.withSession r.session r.ourIndex r.theirIndex r.transportId r.addr)) addr [r.ourIndex] [] := by
    refine ⟨fun b other => ?_,?_,rfl,(append_nil _).symm,fun i => ?_,
      taken.fresh,?_,fun key => ?_⟩
    · show (OrderedMap.insert _ _ _).get? _ = _
      rw [get?_insert,if_neg other]
      rfl
    · intro p same
      rw [entered] at same
      cases same
      exact ⟨rfl,rfl,rfl,rfl,.inl rfl,rfl⟩
    · refine (taken.inUse i).trans ?_
      simp
    · rw [nothing.1,held_of_get? entered]
      rfl
    · rw [nothing.2,keys_of_get? entered]
      show (OrderedMap.insert _ _ _).get? _ = _
      rw [get?_insert]
      simp [dispatchKeys,withSession,takeOver,Node.setPeer]
  exact sound.moved moved

theorem get?_removeActivePeer (s : Node S H) (addr : NodeAddr) :
    (s.removeActivePeer addr).active.get? addr = none := by
  cases found : s.active.get? addr with
  | none => simp only [Node.removeActivePeer,found]
  | some p =>
    obtain ⟨eq,-⟩ := freeListed_eq (f := fun s r => (s.deregisterSessionIndex r.key).freeFor addr r.index)
      OrderedMap.erase (fun _ _ => rfl) { s with active := s.active.erase addr } p.sessionIndices
    simp only [Node.removeActivePeer,found]
    rw [eq]
    simp only [get?_erase,if_true]

theorem Sound.removeActivePeer (sound : s.Sound) (addr : NodeAddr) : (s.removeActivePeer addr).Sound := by
  cases found : s.active.get? addr with
  | none => simpa only [Node.removeActivePeer,found] using sound
  | some p =>
    have before := sound.shaped addr p found
    have distinct := sound.indices_nodup found
    obtain ⟨eq,inUse⟩ := freeListed_eq (f := fun s r => (s.deregisterSessionIndex r.key).freeFor addr r.index)
      OrderedMap.erase (fun _ _ => rfl) { s with active := s.active.erase addr } p.sessionIndices
    have gone := s.get?_removeActivePeer addr
    simp only [Node.removeActivePeer,found] at gone ⊢
    generalize p.sessionIndices.foldl (fun s r => (s.deregisterSessionIndex r.key).freeFor addr r.index)
      { s with active := s.active.erase addr } = s' at eq inUse gone
    have moved : Moved s s' addr [] p.indices := by
      refine ⟨fun b other => ?_,fun q same => ?_,?_,?_,fun i => ?_,⟨.nil,forall_mem_nil _⟩,?_,fun key => ?_⟩
      · rw [eq]
        simp only [get?_erase,if_neg other]
      · rw [gone] at same
        cases same
      · rw [eq]
        exact (append_nil s.taken).symm
      · rw [eq,before.map_index_sessionIndices distinct]
      · rw [inUse i,before.map_index_sessionIndices distinct]
        simp
      · simp [held,gone,found]
      · have listed : key ∈ p.sessionIndices.map PeerSessionIndex.key ↔ _ :=
          mem_map.trans (before.listed_key distinct)
        have nowhere : key ∉ p.dispatchKeys → p.rekeyOurIndex = some (ofLex key).2 →
            s.bySessionIndex.get? key = none :=
          fun unlisted rekey => sound.unregistered found (mem_indices.mpr (.inr (.inl rekey))) unlisted
        have empty : s'.keys addr = [] := by simp [keys,gone]
        rw [empty,keys_of_get? found,eq]
        simp only [get?_foldl_erase]
        grind
    exact sound.moved moved

theorem Sound.of_allocator (sound : s.Sound) {allocator : IndexAllocator}
    (kept : ∀ b, ∀ i ∈ s.held b, i ∈ allocator.inUse) : { s with indexAllocator := allocator }.Sound :=
  ⟨sound.shaped,sound.distinct,kept,sound.apart,sound.dispatch,sound.balance⟩

theorem Sound.resendRekeyMsg1 (sound : s.Sound) (addr : NodeAddr) (next : Nat) :
    (s.resendRekeyMsg1 addr next).Sound := by
  cases found : s.active.get? addr with
  | none => simpa only [Node.resendRekeyMsg1,found] using sound
  | some p =>
    have before := sound.shaped addr p found
    simp only [Node.resendRekeyMsg1,found]
    exact sound.setPeer found
      { before with } rfl rfl

theorem sound_new (nodeAddr : NodeAddr) : (Node.new nodeAddr : Node S H).Sound where
  shaped _ _ found := by cases found
  distinct _ := .nil
  used _ _ member := by cases member
  apart _ _ _ member := by cases member
  dispatch _ _ := ⟨nofun,nofun⟩
  balance _ _ := rfl

theorem Sound.step (exchange : Exchange H S) (sound : s.Sound) (e : Event S H) :
    (s.step exchange e).Sound := by
  cases e with
  | connect draws =>
    simp only [Node.step]
    split
    · exact sound
    · next allocated =>
      obtain ⟨_,rfl⟩ := allocate_eq allocated
      exact sound.of_allocator fun b i member => Finset.mem_insert_of_mem (sound.used b i member)
  | disconnect index =>
    simp only [Node.step]
    split
    · next unheld =>
      refine sound.of_allocator fun b i member => Finset.mem_erase.mpr ⟨?_,sound.used b i member⟩
      rintro rfl
      exact unheld_iff.mp unheld b member
    · exact sound
  | insertPeer addr r =>
    simp only [Node.step]
    split
    · next entering =>
      exact sound.inserted (isNone_iff_eq_none.mp entering.1) entering.2.1 entering.2.2
    · exact sound
  | initiateRekey addr draws message1 sent nextResend =>
    simp only [Node.step]
    split
    · next idle => exact sound.initiateRekey draws message1 sent nextResend idle
    · exact sound
  | rekeyMsg2 receiverIdx senderIdx msg2 now =>
    exact sound.handleRekeyMsg2 exchange receiverIdx senderIdx msg2 now
  | rekeyMsg1 addr senderIdx draws session staged sent now =>
    exact sound.handleRekeyMsg1 addr senderIdx draws session staged sent now
  | abandonRekey addr => exact sound.abandonFmpRekeyForPeer addr
  | exhaustMsg1 addr now maxResends =>
    simp only [Node.step,exhaustFmpRekeyMsg1]
    split
    · exact sound
    · split
      · exact sound.abandonFmpRekeyForPeer addr
      · exact sound
  | resendMsg1 addr next => exact sound.resendRekeyMsg1 addr next
  | expireUnconfirmed addr now timeout =>
    simp only [Node.step,expireUnconfirmedFmpRekey]
    split
    · exact sound
    · split
      · exact sound.abandonFmpRekeyForPeer addr
      · exact sound
  | promotePending addr receivedKBit now => exact sound.confirmed addr receivedKBit now
  | cutover addr now delay =>
    simp only [Node.step,cutoverDueFmpRekey]
    split
    · exact sound
    · split
      · exact sound
      · exact sound.confirmed addr _ now
  | drainDeadPath addr => exact sound.retireFmpRekeyDrainForDeadPath addr
  | completeDrain addr now drain => exact sound.completeDueFmpRekeyDrain addr now drain
  | replace addr r now =>
    simp only [Node.step]
    split
    · next allocated =>
      cases found : s.active.get? addr with
      | none =>
        have absent : (s.takeOver addr r.ourIndex).active.get? addr = none := found
        simp only [replaceCurrentSessionAndPath,absent]
        exact sound
      | some p =>
        obtain ⟨retired,s₂,eq,after⟩ := sound.replaced found allocated.1 allocated.2 now
        simp only [eq]
        exact after
    · exact sound
  | remove addr => exact sound.removeActivePeer addr

theorem Sound.run (exchange : Exchange H S) (sound : s.Sound) (events : List (Event S H)) :
    (s.run exchange events).Sound := by
  induction events generalizing s with
  | nil => exact sound
  | cons e events ih => exact ih (sound.step exchange e)

end Operations

end Node

end Fips.Peer
