import Fips.Relay.Durable
import Fips.Relay.Fences

set_option autoImplicit false

/-! What a journal knows about the ledger of the process that wrote it. -/

namespace Fips.Relay

open Checked OrderedMap List

namespace RelayLedger

variable {ext : Externals} {l l' m : RelayLedger} {op : Op} {id : String} {c : Channel}

/-- While a channel is active, no other channel of its relationship comes to owe more. -/
theorem Effect.carried_le (h : l.Sound) (e : l.Effect ext op l') (held : l.channels.get? id = some c)
    (active : c.active = true) (alive : ∀ windows, op ≠ .recoverWindows windows) :
    l'.carried c.terms ≤ l.carried c.terms := by
  have mapped {m : RelayLedger} (f : String → Channel → Channel) (history : m.history = l.history)
      (channels : m.channels = l.channels.mapWithKey f) (fixed : ∀ i d, (f i d).terms = d.terms)
      (usage : ∀ i d, (f i d).usage = d.usage) : m.carried c.terms ≤ l.carried c.terms :=
    carried_mono history channels fixed fun i d hd other => by rw [usage]
  have updated {m : RelayLedger} (i : String) (g : ChannelUsage → ChannelUsage)
      (history : m.history = l.history)
      (channels : m.channels = l.channels.modify i fun d => withUsage d g)
      (debt : ∀ d, l.channels.get? i = some d → related c.terms d = true → (g d.usage).debt ≤ d.usage.debt) :
      m.carried c.terms ≤ l.carried c.terms := by
    refine carried_mono history channels (fun j e => by split_ifs <;> rfl) fun j e he other => ?_
    split_ifs with here
    · subst here
      exact debt e he other
    · exact le_rfl
  have closed {m : RelayLedger} (p : String → Bool) (history : m.history = l.history)
      (channels : m.channels = l.channels.mapWithKey fun i d => if p i then
        { d with active := false } else d) :
      m.carried c.terms ≤ l.carried c.terms :=
    mapped _ history channels (fun i d => by split_ifs <;> rfl) fun i d => by split_ifs <;> rfl
  cases e with
  | refused quiet => exact le_rfl
  | opened can => exact (can.carried c.terms).le
  | installed can => exact le_rfl
  | @paid i paidMsat d found more cap =>
    refine updated i (fun u => { u with paidMsat }) rfl rfl fun e he other => ?_
    cases found.symm.trans he
    exact Nat.sub_le_sub_left more _
  | @admitted r nowUnix windows i a d digest can result =>
    refine updated a.contract.channelId _ rfl can.transacts.channels fun e he other => ?_
    -- the channel that takes the admission is active, so it is not another one of the relationship
    cases can.channel.symm.trans he
    simp only [related,decide_eq_true_eq] at other
    have same := h.activity.channels _ d id c can.channel held can.open_ active other.2.1 other.2.2
    exact absurd ((h.channels.key _ d can.channel).trans (same.trans (h.channels.key id c held).symm)) other.1
  | finished waits outcome =>
    exact updated _ _ rfl (waits.transacts outcome).channels fun e he other => le_rfl
  | closedContract i => exact closed (fun _ => false) rfl rfl
  | closedChannel i => exact closed (fun j => j = i) rfl rfl
  | @sealed i d found => exact closed (fun j => j = i) rfl rfl
  | @routesRetired channel throughUnix uninstalled d kept after retires =>
    exact mapped (fun i d => if i = channel then { d with retired := after } else d) rfl rfl
      (fun i d => by split_ifs <;> rfl) fun i d => by split_ifs <;> rfl
  | channelsRetired valid retires result =>
    refine (carried_channelsRetired valid retires fun s mem same => ?_).le
    obtain ⟨d,found,idle,-⟩ := retires.held s mem
    rw [same,h.channels.key id c held,held] at found
    cases found
    exact Bool.false_ne_true (idle.symm.trans active)
  | restored => exact closed (fun _ => true) rfl rfl
  | recovered covers result => exact absurd rfl (alive _)

def Limited (l : RelayLedger) (windows : OrderedMap String Nat) : Prop :=
  ∀ id ceiling c, windows.get? id = some ceiling → l.channels.get? id = some c → c.active = true →
    ∃ maximum, l.reservationLimit c.terms c.usage.paidMsat = some maximum ∧ ceiling ≤ maximum

/-- The limit of an active channel never falls. -/
theorem Effect.limited (h : l.Sound) (e : l.Effect ext op l')
    (alive : ∀ windows, op ≠ .recoverWindows windows) {windows : OrderedMap String Nat}
    (limited : l.Limited windows)
    (fresh : ∀ terms paidMsat, op = .openChannelVerified terms paidMsat → l.CanOpen terms paidMsat →
      windows.get? terms.id = none) : l'.Limited windows := by
  intro id ceiling c' window held' active'
  cases held : l.channels.get? id with
  | none =>
    obtain gone | ⟨terms,paidMsat,call,rfl,can⟩ := e.absent held
    · cases held'.symm.trans gone
    · cases window.symm.trans (fresh terms paidMsat call can)
  | some c =>
    obtain ⟨d,stays⟩ | ⟨plan,s,retires⟩ := e.channel h held
    · cases held'.symm.trans stays.held
      have active := stays.active active'
      obtain ⟨maximum,limit,within⟩ := limited id ceiling c window held active
      rw [h.reservationLimit_eq held active] at limit
      cases limit
      have paid : c.usage.paidMsat ≤ c'.usage.paidMsat := by
        cases stays.usage with
        | kept same => rw [same]
        | paid more => exact more
        | reserved active more submitted paid => exact paid.ge
        | submitted waits more reserved paid => exact paid.ge
      have carried := e.carried_le h held active alive
      refine ⟨_,(e.sound h).reservationLimit_eq held' active',within.trans ?_⟩
      rw [stays.terms]
      refine min_le_min le_rfl ?_
      calc U64.saturatingAdd c.usage.paidMsat c.terms.graceMsat - l.carried c.terms
        _ ≤ U64.saturatingAdd c'.usage.paidMsat c.terms.graceMsat - l.carried c.terms :=
          Nat.sub_le_sub_right (saturatingAdd_mono paid) _
        _ ≤ _ := Nat.sub_le_sub_left carried _
    · cases held'.symm.trans retires.gone

def usageOf (l : RelayLedger) (id : String) : ChannelUsage := ((l.channels.get? id).map (·.usage)).getD {}

theorem usageOf_eq (held : l.channels.get? id = some c) : l.usageOf id = c.usage := by simp [usageOf,held]

theorem usageOf_absent (gone : l.channels.get? id = none) : l.usageOf id = {} := by simp [usageOf,gone]

/-- On every channel of `l`, the other ledger reserved at least as much and submitted at most as much. -/
def Below (l m : RelayLedger) : Prop :=
  ∀ id c, l.channels.get? id = some c →
    c.usage.reservedMsat ≤ (m.usageOf id).reservedMsat ∧ (m.usageOf id).submittedMsat ≤ c.usage.submittedMsat

def Spares (l m : RelayLedger) (windows : OrderedMap String Nat) : Prop :=
  ∀ id, l.Forwards id → (windows.get? id).getD 0 ≤ (m.usageOf id).reservedMsat

theorem Effect.below (h : l.Sound) (e : l.Effect ext op l') (alive : ∀ windows, op ≠ .recoverWindows windows)
    (below : l.Below m)
    (known : ∀ terms paidMsat, op = .openChannelVerified terms paidMsat → l.CanOpen terms paidMsat →
      m.channels.get? terms.id = none)
    (spares : ∀ r nowUnix windows, op = .admitWithWindows r nowUnix windows →
      ∃ w, windows = some w ∧ l.Spares m w) :
    l'.Below m := by
  intro id c' held'
  cases held : l.channels.get? id with
  | none =>
    obtain gone | ⟨terms,paidMsat,rfl,rfl,can⟩ := e.absent held
    · cases held'.symm.trans gone
    · rw [usageOf_absent (known terms paidMsat rfl can)]
      cases e with
      | refused quiet => cases held'.symm.trans held
      | opened can =>
        rw [get?_opened,if_pos rfl] at held'
        obtain rfl := Option.some.inj held'
        exact ⟨le_rfl,le_rfl⟩
  | some c =>
    obtain ⟨d,stays⟩ | ⟨plan,s,retires⟩ := e.channel h held
    · cases held'.symm.trans stays.held
      obtain ⟨reservedBelow,submittedAbove⟩ := below id c held
      cases stays.usage with
      | kept same =>
        rw [same]
        exact ⟨reservedBelow,submittedAbove⟩
      | paid more reserved submitted =>
        rw [reserved,submitted]
        exact ⟨reservedBelow,submittedAbove⟩
      | submitted waits more reserved paid =>
        rw [reserved]
        exact ⟨reservedBelow,submittedAbove.trans more⟩
      | reserved active more submitted paid call =>
        rw [submitted]
        refine ⟨?_,submittedAbove⟩
        cases op with
        | admitWithWindows r nowUnix windows =>
          obtain ⟨w,rfl,spare⟩ := spares r nowUnix windows rfl
          exact (call.2 w rfl).trans (spare id call.1)
        | recoverWindows windows => exact absurd rfl (alive windows)
        | _ => exact False.elim call
    · cases held'.symm.trans retires.gone

theorem Transacts.forwards {i : String} {a : Account} {f : Account → Account}
    {g : ChannelUsage → ChannelUsage} (t : Transacts l l' i a c f g) (forwards : l'.Forwards id) :
    l.Forwards id := by
  obtain ⟨c',held',active,j,b',hb',quoted,on⟩ := forwards
  obtain ⟨b,hb,sameActive,sameContract,-⟩ := t.exists_account hb'
  obtain ⟨c,held,⟨-,rfl⟩ | ⟨-,rfl⟩⟩ := exists_of_usage t.channels held'
  all_goals exact ⟨_,held,active,j,b,hb,sameActive ▸ quoted,sameContract ▸ on⟩

theorem Effect.forwards (e : l.Effect ext op l')
    (call : (∃ r nowUnix windows, op = .admitWithWindows r nowUnix windows) ∨
      ∃ token outcome, op = .complete token outcome) (forwards : l'.Forwards id) : l.Forwards id := by
  obtain ⟨r,nowUnix,windows,rfl⟩ | ⟨token,outcome,rfl⟩ := call
  · cases e with
    | refused quiet => exact forwards
    | admitted can result => exact can.transacts.forwards forwards
  · cases e with
    | refused quiet => exact forwards
    | finished waits outcome => exact (waits.transacts outcome).forwards forwards

theorem exists_account_abandoned (p : Account → Bool) {i : String} {a' : Account}
    (ha' : (l.abandoned p).accounts.get? i = some a') :
    ∃ a, l.accounts.get? i = some a ∧ a'.active = a.active ∧ a'.contract = a.contract := by
  simp only [abandoned,OrderedMap.get?_mapValues] at ha'
  obtain ⟨a,ha,rfl⟩ := Option.map_eq_some_iff.1 ha'
  refine ⟨a,ha,?_⟩
  split_ifs
  · exact ⟨Account.active_sealed a,Account.contract_sealed a⟩
  · exact ⟨rfl,rfl⟩

theorem forwards_of_abandoned (p : Account → Bool) (forwards : (l.abandoned p).Forwards id) :
    l.Forwards id := by
  obtain ⟨c,held,active,i,a',ha',quoted,on⟩ := forwards
  obtain ⟨a,ha,sameActive,sameContract⟩ := exists_account_abandoned p ha'
  exact ⟨c,held,active,i,a,ha,sameActive ▸ quoted,sameContract ▸ on⟩

theorem ChannelsSound.reservationLimit_snapshot (h : l.ChannelsSound) (held : l.channels.get? id = some c) :
    l.snapshot.reservationLimit id = l.reservationLimit c.terms c.usage.paidMsat := by
  have mem : c ∈ l.channels.values := mem_values.2 ⟨id,held⟩
  have found : l.channels.values.find? (fun d => d.terms.id = id) = some c := by
    cases search : l.channels.values.find? (fun d => d.terms.id = id) with
    | none =>
      have missed := List.find?_eq_none.1 search c mem
      simp [h.key id c held] at missed
    | some d =>
      have same := List.find?_some search
      obtain ⟨i,hd⟩ := mem_values.1 (mem_of_find?_eq_some search)
      simp only [decide_eq_true_eq,h.key i d hd] at same
      subst same
      rw [← held,← hd]
  unfold Snapshot.reservationLimit
  simp only [snapshot,List.find?_map,map_map]
  show (((l.channels.values.find? fun d => d.terms.id = id).map Channel.snapshot).bind _) = _
  rw [found]
  rfl

theorem serves_snapshot (held : l.channels.get? id = some c) (key : c.terms.id = id) :
    DurableRelay.serves l.snapshot c.snapshot = true ↔ l.Forwards id := by
  simp only [DurableRelay.serves,snapshot,Channel.snapshot,Bool.and_eq_true,any_map,key]
  constructor
  · rintro ⟨active,quoted⟩
    obtain ⟨i,a,ha,serves⟩ := any_values.1 quoted
    simp only [Function.comp_apply,Bool.and_eq_true,decide_eq_true_eq] at serves
    exact ⟨c,held,active,i,a,ha,serves.1,serves.2⟩
  · rintro ⟨d,held',active,i,a,ha,serves,on⟩
    cases held.symm.trans held'
    exact ⟨active,any_values.2 ⟨i,a,ha,by simp [Account.snapshot,serves,on]⟩⟩

end RelayLedger

namespace DurableRelay

variable {ext : Externals} {r r' : DurableRelay} {l' m : RelayLedger} {allow : Bool} {j : Journal}

theorem exists_nextCeiling (windowMsat : Nat) {previous reserved maximum : Nat} (fits : reserved < 2^64)
    (within : reserved ≤ maximum) (limited : allow = true → previous ≤ maximum) :
    ∃ ceiling, nextCeiling windowMsat allow previous reserved maximum = .ok ceiling ∧ reserved ≤ ceiling ∧
      ceiling ≤ maximum ∧ (allow = true → previous ≤ ceiling) := by
  have above (window : Nat) : reserved ≤ min (U64.saturatingAdd reserved window) maximum := by
    unfold U64.saturatingAdd
    omega
  cases allow with
  | false => exact ⟨_,rfl,above 0,min_le_right _ _,fun allowed => by cases allowed⟩
  | true =>
    have less := max_le (min_le_right (U64.saturatingAdd reserved windowMsat) maximum) (limited rfl)
    refine ⟨_,if_neg less.not_gt,(above windowMsat).trans (le_max_left _ _),less,fun _ => le_max_right _ _⟩

/-- What the ceilings of the next journal cover. -/
structure CoversNext (l : RelayLedger) (allow : Bool) (previous ceilings : OrderedMap String Nat) : Prop where
  coverable : ∀ id ceiling, ceilings.get? id = some ceiling → ∃ c, l.Coverable id ceiling c
  above : allow = true → ∀ id ceiling, ceilings.get? id = some ceiling → (previous.get? id).getD 0 ≤ ceiling
  complete : ∀ id, l.Forwards id → (ceilings.get? id).isSome = true

/-- The turn of the loop for a channel that forwards. -/
theorem exists_coverChannel (h : r.ledger.Sound)
    (limited : allow = true → r.ledger.Limited r.windows.ceilings) {id : String} {c : Channel}
    (held : r.ledger.channels.get? id = some c) (forwards : r.ledger.Forwards id)
    (ceilings : OrderedMap String Nat) :
    ∃ ceiling, coverChannel r.windowMsat allow r.windows.ceilings r.ledger.snapshot ceilings c.snapshot =
        .ok (ceilings.insert id ceiling) ∧
      r.ledger.Coverable id ceiling c ∧ (allow = true → (r.windows.ceilings.get? id).getD 0 ≤ ceiling) := by
  obtain ⟨d,held',active,quoted⟩ := forwards
  cases held.symm.trans held'
  obtain ⟨maximum,limit,within⟩ := h.exists_limit held active
  have least : allow = true → (r.windows.ceilings.get? id).getD 0 ≤ maximum := by
    intro allowed
    cases window : r.windows.ceilings.get? id with
    | none => exact Nat.zero_le _
    | some ceiling =>
      obtain ⟨maximum',limit',most⟩ := limited allowed _ _ _ window held active
      cases limit.symm.trans limit'
      exact most
  obtain ⟨-,fits,-⟩ := validateChannel_eq_ok (h.channels.terms _ c held)
  obtain ⟨ceiling,next,above,most,previous⟩ :=
    exists_nextCeiling r.windowMsat ((h.channels.capacity _ c held).trans_lt fits) within least
  refine ⟨ceiling,?_,⟨held,active,quoted,above,maximum,limit,most⟩,previous⟩
  have key : c.snapshot.terms.id = id := h.channels.key id c held
  unfold coverChannel
  rw [if_pos ((RelayLedger.serves_snapshot held key).2 ⟨c,held,active,quoted⟩),key,
    (h.channels.reservationLimit_snapshot held).trans limit]
  show (nextCeiling r.windowMsat allow ((r.windows.ceilings.get? id).getD 0)
      c.usage.reservedMsat maximum >>= _) = _
  rw [next]
  rfl

/-- `persist_next` always finds the next ceilings. -/
theorem exists_persistNext (h : r.ledger.Sound)
    (limited : allow = true → r.ledger.Limited r.windows.ceilings) :
    ∃ ceilings, r.persistNext allow = .ok ⟨1,r.windowMsat,r.ledger.snapshot,ceilings⟩ ∧
      CoversNext r.ledger allow r.windows.ceilings ceilings := by
  have loop := exists_foldlM (f := fun ceilings (c : Channel) =>
      coverChannel r.windowMsat allow r.windows.ceilings r.ledger.snapshot ceilings c.snapshot)
    (fun done ceilings => (∀ id ceiling, ceilings.get? id = some ceiling →
        (∃ c, r.ledger.Coverable id ceiling c) ∧
          (allow = true → (r.windows.ceilings.get? id).getD 0 ≤ ceiling)) ∧
      ∀ c ∈ done, r.ledger.Forwards c.terms.id → (ceilings.get? c.terms.id).isSome = true)
    [] r.ledger.channels.values (s := ∅)
      ⟨fun id ceiling none => (by cases none),fun c mem => (by cases mem)⟩ ?_
  · obtain ⟨ceilings,done,all,complete⟩ := loop
    refine ⟨ceilings,?_,fun id ceiling held => (all id ceiling held).1,
      fun allowed id ceiling held => (all id ceiling held).2 allowed,?_⟩
    · unfold persistNext
      rw [bind_eq_ok]
      refine ⟨ceilings,?_,rfl⟩
      show (r.ledger.channels.values.map Channel.snapshot).foldlM _ _ = _
      rw [foldlM_map]
      exact done
    · rintro id ⟨c,held,forwards⟩
      have found := complete c (mem_values.2 ⟨id,held⟩)
      rw [h.channels.key id c held] at found
      exact found ⟨c,held,forwards⟩
  · rintro before c mem ceilings ⟨all,complete⟩
    obtain ⟨id,held⟩ := mem_values.1 mem
    have key := h.channels.key id c held
    subst key
    by_cases forwards : r.ledger.Forwards c.terms.id
    · obtain ⟨ceiling,turn,can,above⟩ := exists_coverChannel h limited held forwards ceilings
      refine ⟨_,turn,?_,?_⟩
      · intro i other inserted
        rw [OrderedMap.get?_insert] at inserted
        split_ifs at inserted with here
        · cases inserted
          subst here
          exact ⟨⟨c,can⟩,above⟩
        · exact all i other inserted
      · intro d hd serves
        rw [OrderedMap.get?_insert]
        split_ifs with here
        · rfl
        · obtain old | new := mem_append.1 hd
          · exact complete d old serves
          · exact absurd (mem_singleton.1 new ▸ rfl) here
    · refine ⟨ceilings,?_,all,?_⟩
      · unfold coverChannel
        rw [if_neg fun serves => forwards ((RelayLedger.serves_snapshot held rfl).1 serves)]
      · intro d hd serves
        obtain old | new := mem_append.1 hd
        · exact complete d old serves
        · obtain rfl := mem_singleton.1 new
          exact absurd serves forwards

theorem CoversNext.halted {l : RelayLedger} {previous ceilings : OrderedMap String Nat} (h : l.Sound)
    (covers : CoversNext l allow previous ceilings) : l.halted.Covers ceilings := by
  refine ⟨fun id ceiling window => ?_,fun i a' ha' active' => ?_⟩
  · obtain ⟨c,can⟩ := covers.coverable id ceiling window
    obtain ⟨i,a,ha,active,on⟩ := can.quoted
    refine ⟨c,can.held,can.active,⟨i,a.sealed,?_,?_,?_⟩,can.above,can.within⟩
    · simp [RelayLedger.halted,RelayLedger.abandoned,ha]
    · rw [Account.active_sealed,active]
    · rw [Account.contract_sealed,on]
  · obtain ⟨a,ha,sameActive,sameContract⟩ := RelayLedger.exists_account_abandoned _ ha'
    rw [sameContract]
    have active := sameActive ▸ active'
    obtain ⟨c,held,serves⟩ := h.activity.serves i a ha active
    exact covers.complete _ ⟨c,held,serves,i,a,ha,active,rfl⟩

end DurableRelay

/-- A journal taken of a sound ledger, with ceilings that cover it. -/
structure Journal.Recovers (j : Journal) (source m : RelayLedger) : Prop where
  version : j.version = 1
  window : j.windowMsat ≠ 0
  sound : source.Sound
  taken : j.ledger = source.snapshot
  covers : source.halted.Covers j.ceilings
  result : m = source.halted.raised j.ceilings

namespace Journal.Recovers

variable {j : Journal} {source m : RelayLedger} {id : String}
variable (h : j.Recovers source m)
include h

theorem recoverWindows : RelayLedger.recoverWindows j.ledger j.ceilings = .ok m := by
  rw [h.taken]
  exact h.sound.recoverWindows_eq_ok.2 ⟨h.covers,h.result⟩

theorem sound_result : m.Sound := by
  rw [h.result]
  exact h.sound.halted.raised h.covers

theorem get?_eq (id : String) : m.channels.get? id = (source.channels.get? id).map fun c =>
    (j.ceilings.get? id).elim c fun ceiling => RelayLedger.withUsage c (RelayLedger.giveUp ceiling) := by
  rw [h.result]
  exact RelayLedger.get?_raised _ _ _

theorem usageOf_eq {c : Channel} (held : source.channels.get? id = some c) :
    m.usageOf id = (j.ceilings.get? id).elim c.usage fun ceiling => RelayLedger.giveUp ceiling c.usage := by
  unfold RelayLedger.usageOf
  rw [h.get?_eq,held]
  cases j.ceilings.get? id <;> rfl

theorem reserved_eq {ceiling : Nat} (window : j.ceilings.get? id = some ceiling) :
    (m.usageOf id).reservedMsat = ceiling := by
  obtain ⟨c,can⟩ := h.covers.coverable id ceiling window
  have held : source.channels.get? id = some c := can.held
  rw [h.usageOf_eq held,window]
  rfl

theorem spares (l : RelayLedger) : l.Spares m j.ceilings := by
  intro id _
  cases window : j.ceilings.get? id with
  | none => exact Nat.zero_le _
  | some ceiling => exact (h.reserved_eq window).ge

theorem below : source.Below m := by
  intro id c held
  rw [h.usageOf_eq held]
  cases window : j.ceilings.get? id with
  | none => exact ⟨le_rfl,le_rfl⟩
  | some ceiling =>
    obtain ⟨d,can⟩ := h.covers.coverable id ceiling window
    have found : source.channels.get? id = some d := can.held
    cases held.symm.trans found
    exact ⟨can.above,le_rfl⟩

end Journal.Recovers

end Fips.Relay
