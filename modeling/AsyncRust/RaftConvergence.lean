/-
Convergence of the replicated store.

The abstract log is a list of `Slot`s: what the positions carry, apart from how
it is encoded.  The abstract state machine folds the puts of the slots over the
empty map.  A `Replica` is a node of either program, and a run of it is any
sequence of calls; `Delivery` records which entries the library has handed out
and which reports the polls have returned.

* `RaftNode.applyEntries_represents` — applying the entries of some slots
  applies the puts of these slots, and reports them;
* `delivery_invariant` — after every run, store and reports are those of the
  delivered prefix of the log, however it was cut into batches;
* `replicas_converge` — so two replicas that were delivered the same prefix
  hold the same map.
-/
import AsyncRust.DemoNode
import AsyncRust.MiniRaft
import AsyncRust.Runs

namespace Raft

open Runs

variable {L : Library}

/-! ### The abstract log -/

/-- What a position of the log carries; `none` is a position that the state
machine skips. -/
structure Slot where
  index : ℕ
  term : ℕ
  put : Option (String × String)
  deriving DecidableEq, Repr

/-- The abstract state machine: one position. -/
def Slot.apply (values : String → Option String) (slot : Slot) : String → Option String :=
  match slot.put with
  | none => values
  | some (key, value) => Function.update values key (some value)

/-- The map after the positions `slots`. -/
def stateAfter (slots : List Slot) : String → Option String :=
  slots.foldl Slot.apply fun _ => none

/-- What the node `id` reports of a position. -/
def Slot.report (id : ℕ) (slot : Slot) : Option ApplyReport :=
  slot.put.map fun (key, value) => ⟨id, key, value, slot.index, slot.term⟩

/-- The entry is the encoding of the position: one that is skipped is empty or
not a normal entry, any other holds its encoded command. -/
def Slot.Represents (L : Library) (slot : Slot) (entry : Entry) : Prop :=
  entry.index = slot.index ∧ entry.term = slot.term ∧
    match slot.put with
    | none => entry.data = [] ∨ entry.entryType ≠ .entryNormal
    | some (key, value) =>
      entry.entryType = .entryNormal ∧ L.serialize (.put key value) = .ok entry.data

/-! ### Applying the entries of some slots -/

theorem RaftNode.applyEntries_represents (hL : L.BincodeLaws) {slots : List Slot}
    {entries : List Entry} (h : List.Forall₂ (Slot.Represents L) slots entries) :
    ∀ node : RaftNode L, ∃ store,
      node.applyEntries entries =
        .ok (slots.filterMap (Slot.report node.id), { node with store }) ∧
      store.get = slots.foldl Slot.apply node.store.get := by
  induction h with
  | nil => exact fun node => ⟨node.store, rfl, rfl⟩
  | @cons slot entry slots entries hslot _ ih =>
    intro node
    obtain ⟨hindex, hterm, hput⟩ := hslot
    rw [RaftNode.applyEntries]
    cases hslot : slot.put with
    | none =>
      -- a skipped position changes neither store nor reports
      rw [hslot] at hput
      have hskip : ∀ {α : Type} (a b : α), (if entry.data = [] then a
          else if entry.entryType = .entryNormal then b else a) = a := by
        intro α a b
        rcases hput with hput | hput <;> simp [hput]
      rw [hskip]
      obtain ⟨store, happly, hstore⟩ := ih node
      refine ⟨store, ?_, ?_⟩
      · rw [happly, List.filterMap_cons_none (by simp [Slot.report, hslot])]
      · rw [hstore, List.foldl_cons, Slot.apply, hslot]
    | some command =>
      obtain ⟨key, value⟩ := command
      rw [hslot] at hput
      obtain ⟨hnormal, hdata⟩ := hput
      -- an encoded command is not taken for an empty entry
      have hne : entry.data ≠ [] := fun hnil => hL.serialize_ne_nil _ (hnil ▸ hdata)
      rw [if_neg hne, if_pos hnormal, hL.decode_encode hdata]
      obtain ⟨store, happly, hstore⟩ := ih { node with store := node.store.put key value }
      refine ⟨store, bind_eq_ok.mpr ⟨_, rfl, bind_eq_ok.mpr ⟨_, happly, ?_⟩⟩, ?_⟩
      · have hreport : slot.report node.id = some ⟨node.id, key, value, slot.index, slot.term⟩ := by
          simp [Slot.report, hslot]
        rw [List.filterMap_cons_some hreport, hindex, hterm]
        rfl
      · rw [hstore, List.foldl_cons, Slot.apply, hslot, KvStore.get_put]

theorem RaftNode.pollReady_represents (hL : L.BincodeLaws) {node node' : RaftNode L}
    {bundle : ReadyBundle L} (hpoll : node.pollReady = .ok (some bundle, node'))
    {slots : List Slot} (hslots : List.Forall₂ (Slot.Represents L) slots node.handed) :
    bundle.applied = slots.filterMap (Slot.report node.id) ∧
      node'.store.get = slots.foldl Slot.apply node.store.get ∧ node'.id = node.id := by
  obtain ⟨store, happly, hstore, hid⟩ := pollReady_eq_some hpoll
  obtain ⟨store', happly', hstore'⟩ := applyEntries_represents hL hslots node
  rw [happly, Except.ok.injEq, Prod.mk.injEq, RaftNode.mk.injEq] at happly'
  obtain ⟨happlied, -, -, -, rfl⟩ := happly'
  exact ⟨happlied, hstore ▸ hstore', hid⟩

/-! ### Replicas -/

/-- A node of either program. -/
inductive Replica (L : Library) where
  | raftNode (node : RaftNode L)
  | demoNode (node : DemoNode L)

/-- The calls of a node other than `poll_ready`. -/
inductive ReplicaCall (L : Library) where
  | tick
  | campaign
  | propose (payload : CommandPayload)
  | step (msg : L.Message)

namespace Replica

def id : Replica L → ℕ
  | raftNode node => node.id
  | demoNode node => node.id

def valueFor : Replica L → String → Option String
  | raftNode node => node.valueFor
  | demoNode node => node.valueFor

def handed : Replica L → List Entry
  | raftNode node => node.handed
  | demoNode node => node.handed

def pollReady : Replica L → Except Fault (Option (ReadyBundle L) × Replica L)
  | raftNode node => node.pollReady.map fun (bundle, node) => (bundle, raftNode node)
  | demoNode node => node.pollReady.map fun (bundle, node) => (bundle, demoNode node)

/-- The node after a call, whether the call succeeds or not. -/
def call : Replica L → ReplicaCall L → Replica L
  | raftNode node, .tick => raftNode node.tick
  | raftNode node, .campaign => raftNode node.campaign.2
  | raftNode node, .propose payload => raftNode (node.propose payload).2
  | raftNode node, .step msg => raftNode (node.step msg).2
  | demoNode node, .tick => demoNode node.tick
  | demoNode node, .campaign => demoNode node.campaign.2
  | demoNode node, .propose payload => demoNode (node.propose payload).2
  | demoNode node, .step msg => demoNode (node.step msg).2

/-- A replica as its program makes it. -/
inductive Fresh : Replica L → Prop
  | raftNode {id : ℕ} {voters : List ℕ} {node : RaftNode L} :
    RaftNode.new id voters = .ok node → Fresh (raftNode node)
  | demoNode {id : ℕ} {voters : List ℕ} {node : DemoNode L} :
    DemoNode.new id voters = .ok node → Fresh (demoNode node)

theorem Fresh.valueFor {r : Replica L} (h : Fresh r) : r.valueFor = fun _ => none := by
  cases h with
  | raftNode h =>
    obtain ⟨raw, -, h⟩ := bind_eq_ok.mp h
    cases h
    funext key
    exact KvStore.get_new key
  | demoNode h =>
    obtain ⟨raw, -, h⟩ := bind_eq_ok.mp h
    cases h
    funext key
    show AList.lookup key (∅ : AList fun _ : String => String) = none
    exact AList.lookup_empty key

/-- A call other than `poll_ready` changes nothing but the library's part. -/
theorem call_frame (r : Replica L) (c : ReplicaCall L) :
    (r.call c).id = r.id ∧ (r.call c).valueFor = r.valueFor := by
  cases r with
  | raftNode node =>
    have hframe : ∃ raw, (raftNode node).call c = raftNode { node with raw } := by
      cases c with
      | tick => exact ⟨_, rfl⟩
      | campaign => exact ⟨_, rfl⟩
      | propose payload =>
        obtain ⟨raw, hraw⟩ := node.propose_frame payload
        exact ⟨raw, congrArg raftNode hraw⟩
      | step msg => exact ⟨_, rfl⟩
    obtain ⟨raw, hraw⟩ := hframe
    rw [hraw]
    exact ⟨rfl, rfl⟩
  | demoNode node =>
    have hframe : ∃ raw, (demoNode node).call c = demoNode { node with raw } := by
      cases c with
      | tick => exact ⟨_, rfl⟩
      | campaign => exact ⟨_, rfl⟩
      | propose payload =>
        obtain ⟨raw, hraw⟩ := node.propose_frame payload
        exact ⟨raw, congrArg demoNode hraw⟩
      | step msg => exact ⟨_, rfl⟩
    obtain ⟨raw, hraw⟩ := hframe
    rw [hraw]
    exact ⟨rfl, rfl⟩

/-- A poll that returns a bundle applies the entries it is handed. -/
theorem pollReady_represents (hL : L.BincodeLaws) {r r' : Replica L} {bundle : ReadyBundle L}
    (hpoll : r.pollReady = .ok (some bundle, r')) {slots : List Slot}
    (hslots : List.Forall₂ (Slot.Represents L) slots r.handed) :
    bundle.applied = slots.filterMap (Slot.report r.id) ∧
      r'.valueFor = slots.foldl Slot.apply r.valueFor ∧ r'.id = r.id := by
  cases r with
  | raftNode node =>
    obtain ⟨⟨_, node'⟩, hnode, heq⟩ := map_eq_ok.mp hpoll
    cases heq
    exact RaftNode.pollReady_represents hL hnode hslots
  | demoNode node =>
    obtain ⟨⟨_, node'⟩, hnode, heq⟩ := map_eq_ok.mp hpoll
    cases heq
    -- the `RaftNode` that the demo node matches polls alike
    obtain ⟨n, hn⟩ := DemoNode.exists_matches node
    obtain ⟨⟨_, n'⟩, hpoll', rfl, (hn' : DemoNode.Matches _ n')⟩ := hn.pollReady.of_ok hnode
    have hhanded : (demoNode node).handed = n.handed := by
      simp only [handed, RaftNode.handed, DemoNode.handed, hn.raw, hn.storage]
    rw [hhanded] at hslots
    obtain ⟨happlied, hstore, hid⟩ := RaftNode.pollReady_represents hL hpoll' hslots
    refine ⟨?_, ?_, hn'.id.trans (hid.trans hn.id.symm)⟩
    · rw [happlied, ← hn.id]
      rfl
    · exact hn'.valueFor.trans (hstore.trans (congrArg (slots.foldl Slot.apply) hn.valueFor.symm))

/-- A poll that returns nothing leaves the replica as it is. -/
theorem pollReady_eq_none {r r' : Replica L} (hpoll : r.pollReady = .ok (none, r')) :
    r'.id = r.id ∧ r'.valueFor = r.valueFor := by
  cases r with
  | raftNode node =>
    obtain ⟨⟨_, node'⟩, hnode, heq⟩ := map_eq_ok.mp hpoll
    cases heq
    obtain ⟨-, rfl⟩ := RaftNode.pollReady_eq_none hnode
    exact ⟨rfl, rfl⟩
  | demoNode node =>
    obtain ⟨⟨_, node'⟩, hnode, heq⟩ := map_eq_ok.mp hpoll
    cases heq
    obtain ⟨n, hn⟩ := DemoNode.exists_matches node
    obtain ⟨⟨_, n'⟩, hpoll', rfl, (hn' : DemoNode.Matches _ n')⟩ := hn.pollReady.of_ok hnode
    obtain ⟨-, rfl⟩ := RaftNode.pollReady_eq_none hpoll'
    exact ⟨hn'.id.trans hn.id.symm, hn'.valueFor.trans hn.valueFor.symm⟩

end Replica

/-! ### Runs -/

/-- A replica with what it was delivered and what its polls have returned. -/
structure Delivery (L : Library) where
  replica : Replica L
  delivered : List Entry
  reports : List ApplyReport

inductive DeliveryEvent (L : Library) where
  | call (c : ReplicaCall L)
  | poll

namespace Delivery

/-- A run is over when a poll returns an error: both programs end there. -/
def step (s : Delivery L) : DeliveryEvent L → Option (Delivery L)
  | .call c => some { s with replica := s.replica.call c }
  | .poll =>
    match s.replica.pollReady with
    | .error _ => none
    | .ok (none, replica) => some { s with replica }
    | .ok (some bundle, replica) =>
      some
        { replica
          delivered := s.delivered ++ s.replica.handed
          reports := s.reports ++ bundle.applied }

def start (replica : Replica L) : Delivery L := ⟨replica, [], []⟩

/-- The store and the reports are those of the positions delivered. -/
structure UpTo (slots : List Slot) (s : Delivery L) : Prop where
  valueFor : s.replica.valueFor = stateAfter slots
  reports : s.reports = slots.filterMap (Slot.report s.replica.id)

/-- Every step keeps the store and the reports those of what was delivered, as
long as that is a prefix of the log. -/
theorem step_upTo (hL : L.BincodeLaws) {log : List Entry} {slots : List Slot}
    (hlog : List.Forall₂ (Slot.Represents L) slots log) (s : Delivery L) (e : DeliveryEvent L)
    (s' : Delivery L)
    (hs : s.delivered <+: log → s.UpTo (slots.take s.delivered.length))
    (he : s.step e = some s') (hlogged : s'.delivered <+: log) :
    s'.UpTo (slots.take s'.delivered.length) := by
  cases e with
  | call c =>
    cases he
    obtain ⟨hvalue, hreports⟩ := hs hlogged
    obtain ⟨hid, hvalueFor⟩ := s.replica.call_frame c
    exact ⟨hvalueFor.trans hvalue, by simp only [hid, hreports]⟩
  | poll =>
    simp only [step] at he
    split at he
    · cases he
    · rename_i replica hpoll
      cases he
      obtain ⟨hvalue, hreports⟩ := hs hlogged
      obtain ⟨hid, hvalueFor⟩ := Replica.pollReady_eq_none hpoll
      exact ⟨hvalueFor.trans hvalue, by simp only [hid, hreports]⟩
    · rename_i bundle replica hpoll
      cases he
      -- the log is what was delivered, the batch of this poll, and the rest
      obtain ⟨rest, rfl⟩ := hlogged
      obtain ⟨hvalue, hreports⟩ :=
        hs ⟨s.replica.handed ++ rest, (List.append_assoc _ _ _).symm⟩
      have hbatch : List.Forall₂ (Slot.Represents L)
          ((slots.drop s.delivered.length).take s.replica.handed.length) s.replica.handed := by
        have := List.forall₂_take s.replica.handed.length
          (List.forall₂_drop s.delivered.length hlog)
        simpa [List.append_assoc] using this
      obtain ⟨happlied, hvalueFor, hid⟩ := Replica.pollReady_represents hL hpoll hbatch
      rw [List.length_append, List.take_add]
      constructor
      · simp only [hvalueFor, hvalue, stateAfter, List.foldl_append]
      · simp only [hreports, happlied, hid, List.filterMap_append]

/-- After every run of a fresh replica that was delivered a prefix of the log. -/
theorem delivery_invariant (hL : L.BincodeLaws) {log : List Entry} {slots : List Slot}
    (hlog : List.Forall₂ (Slot.Represents L) slots log) {replica : Replica L}
    (hfresh : replica.Fresh) {es : List (DeliveryEvent L)} {s : Delivery L}
    (hrun : run step (start replica) es = some s) (hlogged : s.delivered <+: log) :
    s.UpTo (slots.take s.delivered.length) := by
  have hinv := run_invariant (I := fun s : Delivery L =>
      s.delivered <+: log → s.UpTo (slots.take s.delivered.length))
    (fun s e s' => step_upTo hL hlog s e s') ?_ hrun
  · exact hinv hlogged
  · intro _
    exact ⟨hfresh.valueFor, rfl⟩

end Delivery

/-- **Convergence.**  The log holds the positions `slots`, and two fresh
replicas, each of either program, are run in any way in which what the library
hands out so far is a prefix of the log.  Then the store of a replica is the
fold of the puts it was delivered, its reports are these puts, once each and in
order, and replicas that were delivered the same prefix, in whatever batches,
hold the same map. -/
theorem replicas_converge (hL : L.BincodeLaws) {log : List Entry} {slots : List Slot}
    (hlog : List.Forall₂ (Slot.Represents L) slots log) {r₁ r₂ : Replica L}
    (hr₁ : r₁.Fresh) (hr₂ : r₂.Fresh) {es₁ es₂ : List (DeliveryEvent L)} {s₁ s₂ : Delivery L}
    (hrun₁ : run Delivery.step (.start r₁) es₁ = some s₁)
    (hrun₂ : run Delivery.step (.start r₂) es₂ = some s₂)
    (hlogged₁ : s₁.delivered <+: log) (hlogged₂ : s₂.delivered <+: log) :
    (s₁.replica.valueFor = stateAfter (slots.take s₁.delivered.length) ∧
      s₁.reports =
        (slots.take s₁.delivered.length).filterMap (Slot.report s₁.replica.id)) ∧
      (s₁.delivered = s₂.delivered → s₁.replica.valueFor = s₂.replica.valueFor) := by
  have h₁ := Delivery.delivery_invariant hL hlog hr₁ hrun₁ hlogged₁
  have h₂ := Delivery.delivery_invariant hL hlog hr₂ hrun₂ hlogged₂
  refine ⟨⟨h₁.valueFor, h₁.reports⟩, fun heq => ?_⟩
  rw [h₁.valueFor, h₂.valueFor, heq]

open MiniRaft in
/-- A `RaftNode` that polls after each proposal and a demo node that polls once
for all of them, each the only voter: the log holds the empty entry of the
election, a put, and a put of empty texts. -/
theorem replicas_converge_two_batchings :
    ∃ (node : RaftNode (miniRaft [])) (demo : DemoNode (miniRaft []))
      (s₁ s₂ : Delivery (miniRaft [])),
      RaftNode.new 1 [1] = .ok node ∧ DemoNode.new 1 [1] = .ok demo ∧
      run Delivery.step (.start (.raftNode node)) [.call .campaign, .poll,
        .call (.propose (.put "k" "v")), .poll, .call (.propose (.put "" "")), .poll] = some s₁ ∧
      run Delivery.step (.start (.demoNode demo)) [.call .campaign, .call (.propose (.put "k" "v")),
        .call (.propose (.put "" "")), .poll] = some s₂ ∧
      s₁.delivered.length = 3 ∧ s₁.delivered = s₂.delivered ∧
      s₁.replica.valueFor = s₂.replica.valueFor := by
  let storage := Storage.newWithConfState [1]
  let node : RaftNode (miniRaft []) := ⟨1, .start 1 storage, storage, .new⟩
  let demo : DemoNode (miniRaft []) := ⟨1, .start 1 storage, storage, ∅⟩
  let slots : List Slot := [⟨1, 1, none⟩, ⟨2, 1, some ("k", "v")⟩, ⟨3, 1, some ("", "")⟩]
  let data (length : UInt8) (text : List UInt8) : List UInt8 :=
    [length, 0, 0, 0, 0, 0, 0, 0] ++ text
  let log : List Entry := [⟨.entryNormal, 1, 1, []⟩,
    ⟨.entryNormal, 1, 2, [0, 0, 0, 0] ++ data 1 [107] ++ data 1 [118]⟩,
    ⟨.entryNormal, 1, 3, [0, 0, 0, 0] ++ data 0 [] ++ data 0 []⟩]
  have hnode : RaftNode.new 1 [1] = .ok node := rfl
  have hdemo : DemoNode.new 1 [1] = .ok demo := rfl
  have hlog : List.Forall₂ (Slot.Represents (miniRaft [])) slots log := by
    refine .cons ⟨rfl, rfl, .inl rfl⟩ (.cons ⟨rfl, rfl, rfl, ?_⟩ (.cons ⟨rfl, rfl, rfl, ?_⟩ .nil))
    · decide
    · decide
  have hrun₁ : (run Delivery.step (.start (.raftNode node)) [.call .campaign, .poll,
      .call (.propose (.put "k" "v")), .poll, .call (.propose (.put "" "")), .poll]).map
        Delivery.delivered = some log := by decide
  have hrun₂ : (run Delivery.step (.start (.demoNode demo)) [.call .campaign,
      .call (.propose (.put "k" "v")), .call (.propose (.put "" "")), .poll]).map
        Delivery.delivered = some log := by decide
  obtain ⟨s₁, hs₁, hdelivered₁⟩ := Option.map_eq_some_iff.mp hrun₁
  obtain ⟨s₂, hs₂, hdelivered₂⟩ := Option.map_eq_some_iff.mp hrun₂
  have hconverge := replicas_converge (bincodeLaws []) hlog
    (.raftNode hnode) (.demoNode hdemo) hs₁ hs₂
    (hdelivered₁ ▸ List.prefix_refl _) (hdelivered₂ ▸ List.prefix_refl _)
  have heq : s₁.delivered = s₂.delivered := hdelivered₁.trans hdelivered₂.symm
  exact ⟨node, demo, s₁, s₂, hnode, hdemo, hs₁, hs₂, by rw [hdelivered₁]; rfl, heq,
    hconverge.2 heq⟩

end Raft
