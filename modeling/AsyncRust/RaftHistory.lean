/-
One history for the cluster.

The library hands the committed entries of one log to all nodes, to each as far as it has got.
Clients talk to any of the nodes, and are answered by what that node has applied.

* `Slot.LastPut` — the last put of a key among some positions of the log;
* `Host.Replayed` — a node has applied the entries that it was handed, and nothing else;
* `one_history` — what clients read at any node comes from one history, a node that is ahead
  reads no older value, and a put that was answered is in it.
-/
import AsyncRust.DemoMain
import AsyncRust.Lists
import AsyncRust.RaftConvergence
import AsyncRust.RaftNetwork
import AsyncRust.RaftReads

namespace Raft

open Lists Runs

variable {L : Library}

/-! ### The log -/

/-- What an entry does to the store. -/
def Entry.slot (L : Library) (entry : Entry) : Slot :=
  ⟨entry.index, entry.term,
    if entry.data = [] ∨ entry.entryType ≠ .entryNormal then none
    else (L.deserialize entry.data).toOption.map fun (.put key value) => (key, value)⟩

/-- The first `n` positions of the log. -/
def Library.slots (L : Library) (log : List Entry) (n : ℕ) : List Slot :=
  (log.take n).map (Entry.slot L)

/-- At position `p` is a put of `key`. -/
def PutAt (slots : List Slot) (p : ℕ) (key value : String) : Prop :=
  slots[p]?.bind Slot.put = some (key, value)

/-- The last put of `key` is at position `p`. -/
def LastPut (slots : List Slot) (key : String) (p : ℕ) (value : String) : Prop :=
  PutAt slots p key value ∧ ∀ q, p < q → ∀ value', ¬ PutAt slots q key value'

theorem putAt_concat {slots : List Slot} {slot : Slot} {key value : String} {p : ℕ} :
    PutAt (slots ++ [slot]) p key value ↔
      PutAt slots p key value ∨ p = slots.length ∧ slot.put = some (key, value) := by
  rw [PutAt, PutAt, Option.bind_eq_some_iff, Option.bind_eq_some_iff]
  constructor
  · rintro ⟨slot', hslot', hput⟩
    rcases getElem?_concat_cases hslot' with ⟨-, hold⟩ | ⟨rfl, rfl⟩
    · exact .inl ⟨slot', hold, hput⟩
    · exact .inr ⟨rfl, hput⟩
  · rintro (⟨slot', hold, hput⟩ | ⟨rfl, hput⟩)
    · obtain ⟨hlt, -⟩ := List.getElem?_eq_some_iff.mp hold
      exact ⟨slot', (List.getElem?_append_left hlt).trans hold, hput⟩
    · exact ⟨slot, by simp, hput⟩

theorem PutAt.lt {slots : List Slot} {key value : String} {p : ℕ}
    (h : PutAt slots p key value) : p < slots.length := by
  obtain ⟨slot, hslot, -⟩ := Option.bind_eq_some_iff.mp h
  exact (List.getElem?_eq_some_iff.mp hslot).1

theorem lastPut_concat {slots : List Slot} {slot : Slot} {key value : String} {p : ℕ} :
    LastPut (slots ++ [slot]) key p value ↔
      p = slots.length ∧ slot.put = some (key, value) ∨
      LastPut slots key p value ∧ ∀ value', slot.put ≠ some (key, value') := by
  simp only [LastPut, putAt_concat]
  constructor
  · rintro ⟨hold | hnew, hnone⟩
    · refine .inr ⟨⟨hold, fun q hq value' hput => hnone q hq value' (.inl hput)⟩, ?_⟩
      exact fun value' hput => hnone _ hold.lt value' (.inr ⟨rfl, hput⟩)
    · exact .inl hnew
  · rintro (⟨rfl, hput⟩ | ⟨⟨hold, hnone⟩, hother⟩)
    · refine ⟨.inr ⟨rfl, hput⟩, fun q hq value' hlater => ?_⟩
      rcases hlater with hlater | ⟨rfl, -⟩
      · exact absurd hlater.lt (Nat.lt_asymm hq)
      · exact absurd hq (Nat.lt_irrefl _)
    · refine ⟨.inl hold, fun q hq value' hlater => ?_⟩
      rcases hlater with hlater | ⟨-, hput⟩
      · exact hnone q hq value' hlater
      · exact hother value' hput

theorem stateAfter_concat (slots : List Slot) (slot : Slot) :
    stateAfter (slots ++ [slot]) = slot.apply (stateAfter slots) :=
  List.foldl_concat ..

/-- The state is that of the last puts. -/
theorem stateAfter_eq_some {slots : List Slot} {key value : String} :
    stateAfter slots key = some value ↔ ∃ p, LastPut slots key p value := by
  induction slots using List.reverseRecOn generalizing value with
  | nil => simp [stateAfter, LastPut, PutAt]
  | append_singleton slots slot ih =>
    simp only [stateAfter_concat, lastPut_concat, Slot.apply]
    cases hput : slot.put with
    | none => simp [ih]
    | some command =>
      obtain ⟨key', value'⟩ := command
      show Function.update (stateAfter slots) key' (some value') key = some value ↔ _
      by_cases hkey : key = key'
      · subst hkey
        simp
      · rw [Function.update_of_ne hkey, ih]
        simp [Ne.symm hkey]

/-- After a put of a key there is a last one, which is not before it. -/
theorem exists_lastPut {slots : List Slot} {key value : String} {p : ℕ}
    (h : PutAt slots p key value) : ∃ p' value', p ≤ p' ∧ LastPut slots key p' value' := by
  induction slots using List.reverseRecOn generalizing value with
  | nil => cases h
  | append_singleton slots slot ih =>
    by_cases hslot : ∃ value', slot.put = some (key, value')
    · obtain ⟨value', hput⟩ := hslot
      have hlt := h.lt
      rw [List.length_append, List.length_singleton] at hlt
      exact ⟨slots.length, value', Nat.le_of_lt_succ hlt, lastPut_concat.mpr (.inl ⟨rfl, hput⟩)⟩
    · rcases putAt_concat.mp h with hold | ⟨-, hput⟩
      · obtain ⟨p', value', hle, hlast⟩ := ih hold
        refine ⟨p', value', hle, lastPut_concat.mpr (.inr ⟨hlast, fun value' hput => ?_⟩)⟩
        exact hslot ⟨value', hput⟩
      · exact absurd ⟨value, hput⟩ hslot

/-- What is put at a position does not depend on how far one looks in the log. -/
theorem putAt_slots {log : List Entry} {n p : ℕ} {key value : String} :
    PutAt (L.slots log n) p key value ↔ p < n ∧ PutAt (log.map (Entry.slot L)) p key value := by
  rw [PutAt, PutAt, Library.slots, List.map_take, List.getElem?_take]
  split <;> simp_all

/-- Who has got to a put of a key reads this put or a later one. -/
theorem stateAfter_of_putAt {slots : List Slot} {key value : String} {p : ℕ}
    (h : PutAt slots p key value) : ∃ p' value', p ≤ p' ∧
      stateAfter slots key = some value' ∧ LastPut slots key p' value' := by
  obtain ⟨p', value', hle, hlast⟩ := exists_lastPut h
  exact ⟨p', value', hle, stateAfter_eq_some.mpr ⟨p', hlast⟩, hlast⟩

/-! ### What a node has applied -/

/-- Entries that are applied are what they say, read one by one. -/
theorem RaftNode.applyEntries_slots {entries : List Entry} :
    ∀ {node node' : RaftNode L} {applied : List ApplyReport},
      node.applyEntries entries = .ok (applied, node') →
        applied.map ApplyReport.command = (entries.map (Entry.slot L)).filterMap Slot.put ∧
        node'.store.get = (entries.map (Entry.slot L)).foldl Slot.apply node.store.get := by
  induction entries with
  | nil =>
    intro node node' applied h
    cases h
    exact ⟨rfl, rfl⟩
  | cons entry entries ih =>
    intro node node' applied h
    rw [applyEntries] at h
    by_cases hskip : entry.data = [] ∨ entry.entryType ≠ .entryNormal
    · have hslot : (entry.slot L).put = none := if_pos hskip
      have hrest : node.applyEntries entries = .ok (applied, node') := by
        rcases hskip with hempty | hother
        · rwa [if_pos hempty] at h
        · rwa [if_neg hother, ite_self] at h
      obtain ⟨happlied, hstore⟩ := ih hrest
      refine ⟨?_, ?_⟩
      · rw [happlied, List.map_cons, List.filterMap_cons_none hslot]
      · rw [hstore, List.map_cons, List.foldl_cons, Slot.apply, hslot]
    · obtain ⟨hdata, hnormal⟩ := not_or.mp hskip
      rw [if_neg hdata, if_pos (not_not.mp hnormal)] at h
      obtain ⟨⟨key, value⟩, hdecode, h⟩ := bind_eq_ok.mp h
      obtain ⟨⟨applied', node''⟩, happly, h⟩ := bind_eq_ok.mp h
      cases h
      have hslot : (entry.slot L).put = some (key, value) := by
        rw [context_eq_ok, CommandPayload.decode] at hdecode
        cases hread : L.deserialize entry.data with
        | error err => rw [hread] at hdecode; cases hdecode
        | ok command =>
          rw [hread] at hdecode
          cases hdecode
          simp [Entry.slot, hskip, hread, Except.toOption]
      obtain ⟨happlied, hstore⟩ := ih happly
      refine ⟨?_, ?_⟩
      · rw [List.map_cons, happlied, List.map_cons, List.filterMap_cons_some hslot]
        rfl
      · rw [hstore, List.map_cons, List.foldl_cons, Slot.apply, hslot]
        show _ = List.foldl Slot.apply (Function.update node.store.get key (some value)) _
        rw [← KvStore.get_put]

namespace Host

variable {s s' : Host L}

/-- How far in the log the node is. -/
def position (s : Host L) : ℕ := s.history.delivered.length

/-- The store is that of the entries that were delivered, and so are the reports. -/
structure Replayed (s : Host L) : Prop where
  valueFor : s.worker.node.valueFor = stateAfter (s.history.delivered.map (Entry.slot L))
  applied : s.history.applied.map ApplyReport.command =
    (s.history.delivered.map (Entry.slot L)).filterMap Slot.put

theorem Replayed.step (h : s.Replayed) (hstep : StoreStep s s') : s'.Replayed := by
  cases hstep with
  | same hstore happlied hdelivered =>
    refine ⟨?_, by rw [happlied, hdelivered, h.applied]⟩
    rw [hdelivered, ← h.valueFor]
    exact congrArg KvStore.get hstore
  | polled applied node happly hstore happlied hdelivered =>
    obtain ⟨hreports, hget⟩ := RaftNode.applyEntries_slots happly
    refine ⟨?_, ?_⟩
    · calc s'.worker.node.valueFor = node.store.get := congrArg KvStore.get hstore
        _ = (s.worker.node.handed.map (Entry.slot L)).foldl Slot.apply s.worker.node.valueFor :=
          hget
        _ = stateAfter (s'.history.delivered.map (Entry.slot L)) := by
          rw [h.valueFor, hdelivered, List.map_append, stateAfter, stateAfter, List.foldl_append]
    · rw [happlied, hdelivered, List.map_append, List.map_append, List.filterMap_append,
        h.applied, hreports]

theorem StoreStep.delivered_isPrefix (h : StoreStep s s') :
    s.history.delivered <+: s'.history.delivered := by
  cases h with
  | same _ _ hdelivered => exact hdelivered ▸ List.prefix_rfl
  | polled applied node _ _ _ hdelivered =>
    rw [hdelivered]
    exact List.prefix_append _ _

theorem replayed_of_reachable {config : NodeConfig} {s₀ : Host L}
    (hspawn : spawnNode L config = .ok s₀) (h : Reachable step s₀ s) : s.Replayed := by
  refine h.invariant ?_ fun t e t' _ ht he => ht.step (storeStep_of_step he)
  obtain ⟨-, node, hnode, rfl⟩ := spawnNode_eq_ok hspawn
  obtain ⟨raw, -, hnode⟩ := bind_eq_ok.mp hnode
  cases hnode
  exact ⟨funext fun key => KvStore.get_new key, rfl⟩

theorem delivered_isPrefix (h : Reachable step s s') :
    s.history.delivered <+: s'.history.delivered :=
  h.invariant (I := fun t => s.history.delivered <+: t.history.delivered) List.prefix_rfl
    fun _ _ _ _ ht he => ht.trans (storeStep_of_step he).delivered_isPrefix

section

variable {config : NodeConfig} {log : List Entry} {s₀ : Host L}
variable (hspawn : spawnNode L config = .ok s₀) (h : Reachable step s₀ s)
variable (hlog : s.history.delivered <+: log)

include hspawn h hlog

theorem Reads.eq_stateAfter {key : String} {v : Option String} (hread : s.Reads key v) :
    v = stateAfter (L.slots log s.position) key := by
  rw [hread.eq, (replayed_of_reachable hspawn h).valueFor, Library.slots, position,
    ← List.prefix_iff_eq_take.mp hlog]

/-- A put that was answered has been applied. -/
theorem exists_put_of_ack {ch : ChannelId} {value : String}
    (hack : (ch, .put (.ok value)) ∈ s.worker.replies) :
    ∃ put ∈ s.history.accepted, put.respondTo = ch ∧ put.value = value ∧
      ∃ p, PutAt (L.slots log s.position) p put.key value := by
  obtain ⟨hclients, hnotifies⟩ := clients_of_reachable hspawn h
  obtain ⟨put, p, report, hch, hvalue, hanswered⟩ :=
    exists_answeredBy hclients hnotifies (acks_of_reachable hspawn h).1 hack
  refine ⟨put, hanswered.accepted, hch, hvalue, ?_⟩
  have hmem : report.command ∈ s.history.applied.map ApplyReport.command :=
    List.mem_map_of_mem (List.mem_of_getElem? hanswered.applied)
  rw [(replayed_of_reachable hspawn h).applied] at hmem
  obtain ⟨slot, hslot, hput⟩ := List.mem_filterMap.mp hmem
  obtain ⟨p', hp'⟩ := List.getElem?_of_mem hslot
  refine ⟨p', ?_⟩
  rw [PutAt, Library.slots, position, ← List.prefix_iff_eq_take.mp hlog, hp']
  refine hput.trans (congrArg some ?_)
  rw [ApplyReport.command, hanswered.command.1, hanswered.command.2, hvalue]

end

end Host

/-! ### The cluster -/

namespace Network

variable {peers : Std.TreeMap ℕ String} {s s' : Network L}

/-- What a host does in a network, it does by steps of its own. -/
theorem reachable_host (h : Reachable (Network.step peers) s s') (id : ℕ) :
    Reachable Host.step (s.hosts id) (s'.hosts id) := by
  refine h.invariant (I := fun t => Reachable Host.step (s.hosts id) (t.hosts id)) (.refl _)
    fun t ce t' _ ht hstep => ?_
  have hmove {id' : ℕ} {e : Event} {host : Host L} (hhost : (t.hosts id').step e = some host) :
      Reachable Host.step (s.hosts id) (Function.update t.hosts id' host id) := by
    by_cases hid : id = id'
    · subst hid
      rw [Function.update_self]
      exact ht.tail hhost
    · rwa [Function.update_of_ne hid]
  cases step_cases hstep with
  | host _ _ hhost => exact hmove hhost
  | arrive _ _ _ _ hhost => exact hmove hhost
  | broken _ _ hhost => exact hmove hhost

end Network

/-- **One history.**  The library hands all nodes beginnings of one log.  Then, at whatever
nodes clients read and at whatever times of a run,

* a read returns what the log puts in as far as the node has got, and the node only gets
  further;
* of two reads of a key the one at the node that is further in the log returns no older value;
* a put that was answered is in the log, where the node that answered it has got to already,
  and every later read at a node that has got there returns its value or that of a put behind
  it. -/
theorem one_history {peers : Std.TreeMap ℕ String} {log : List Entry} {s₀ s₁ s₂ : Network L}
    (hspawn : Network.Spawned peers s₀) (h₁ : Reachable (Network.step peers) s₀ s₁)
    (h₂ : Reachable (Network.step peers) s₁ s₂)
    (hlog : ∀ id ∈ peers, (s₂.hosts id).history.delivered <+: log) :
    ∀ id ∈ peers, ∀ id' ∈ peers, (s₁.hosts id).position ≤ (s₂.hosts id).position ∧
      (∀ key v₁ v₂, (s₁.hosts id).Reads key v₁ → (s₂.hosts id').Reads key v₂ →
        v₁ = stateAfter (L.slots log (s₁.hosts id).position) key ∧
        v₂ = stateAfter (L.slots log (s₂.hosts id').position) key ∧
        ((s₁.hosts id).position ≤ (s₂.hosts id').position → ∀ p value,
          LastPut (L.slots log (s₁.hosts id).position) key p value →
            ∃ p' value', p ≤ p' ∧ v₂ = some value' ∧
              LastPut (L.slots log (s₂.hosts id').position) key p' value')) ∧
      ∀ ch value, (ch, .put (.ok value)) ∈ (s₁.hosts id).worker.replies →
        ∃ put ∈ (s₁.hosts id).history.accepted, put.respondTo = ch ∧ put.value = value ∧
          ∃ p, PutAt (L.slots log (s₁.hosts id).position) p put.key value ∧
            ∀ v, (s₂.hosts id').Reads put.key v → p < (s₂.hosts id').position →
              ∃ p' value', p ≤ p' ∧ v = some value' ∧
                LastPut (L.slots log (s₂.hosts id').position) put.key p' value' := by
  have hhost : ∀ id ∈ peers, ∃ config, spawnNode L config = .ok (s₀.hosts id) := by
    intro id hid
    obtain ⟨addr, haddr⟩ := Option.isSome_iff_exists.mp (Std.TreeMap.mem_iff_isSome_getElem?.mp hid)
    exact ⟨_, hspawn.hosts id addr haddr⟩
  have hbegins : ∀ id ∈ peers, (s₁.hosts id).history.delivered <+: log := fun id hid =>
    (Host.delivered_isPrefix (Network.reachable_host h₂ id)).trans (hlog id hid)
  intro id hid id' hid'
  obtain ⟨config, hnode⟩ := hhost id hid
  obtain ⟨config', hnode'⟩ := hhost id' hid'
  have hreach := Network.reachable_host h₁ id
  have hreach' := Network.reachable_host (h₁.trans h₂) id'
  refine ⟨(Host.delivered_isPrefix (Network.reachable_host h₂ id)).length_le,
    fun key v₁ v₂ hread₁ hread₂ => ?_, fun ch value hack => ?_⟩
  · have hv₂ := hread₂.eq_stateAfter hnode' hreach' (hlog id' hid')
    refine ⟨hread₁.eq_stateAfter hnode hreach (hbegins id hid), hv₂, fun hle p value hlast => ?_⟩
    obtain ⟨hp, hput⟩ := putAt_slots.mp hlast.1
    rw [hv₂]
    exact stateAfter_of_putAt (putAt_slots.mpr ⟨Nat.lt_of_lt_of_le hp hle, hput⟩)
  · obtain ⟨put, hput, hch, hvalue, p, hat⟩ :=
      Host.exists_put_of_ack hnode hreach (hbegins id hid) hack
    refine ⟨put, hput, hch, hvalue, p, hat, fun v hread hp => ?_⟩
    rw [hread.eq_stateAfter hnode' hreach' (hlog id' hid')]
    exact stateAfter_of_putAt (putAt_slots.mpr ⟨hp, (putAt_slots.mp hat).2⟩)

section

open MiniRaft

/-- The log: the empty entry of an election, and a put. -/
def putLog : List Entry :=
  [⟨.entryNormal, 1, 1, []⟩,
    ⟨.entryNormal, 1, 2, [0, 0, 0, 0] ++ ByteFormat.leBytes 8 1 ++ ByteFormat.utf8 "k" ++
      ByteFormat.leBytes 8 1 ++ ByteFormat.utf8 "v"⟩]

/-- Node 1 sends an entry to node 2, behind those that it sent before. -/
def appended (entries : List Entry) (index logTerm commit : ℕ) : MiniRaft.Message :=
  { Message.default with
    msgType := .msgAppend, receiver := 2, sender := 1, term := 1, logTerm, index, entries, commit }

def putStored : MiniRaft.Message :=
  { Message.default with
    msgType := .msgAppendResponse, receiver := 1, sender := 2, term := 1, index := 2 }

/-- The library, for a put that nodes 1 and 2 commit. -/
abbrev replicating : Library :=
  { threeVoters with
    decode := MiniRaft.decode [voteAsked 2, voteGranted, appended (putLog.take 1) 0 0 0,
      appended (putLog.drop 1) 1 1 0, putStored, appended [] 2 1 2] }

/-- Three nodes, from their start. -/
def threeReplicas : Network replicating where
  hosts id :=
    let storage : MiniRaft.Storage := .newWithConfState [1, 2, 3]
    .start (.new ⟨id, .start id storage, storage, .new⟩ threeNodes.peers)
  arrived := []

def work (id n : ℕ) : List NetworkEvent := List.replicate n (.host id (.process none))

/-- A frame arrives, and its receiver works it off. -/
def hears (sender position receiver n : ℕ) : List NetworkEvent :=
  [.arrive sender position receiver, .host receiver (.recvNetwork false)] ++ work receiver n

/-- Node 1 is elected and takes a put, which it commits with node 2. -/
def putAtOne : List NetworkEvent :=
  [.host 1 .campaign, .host 1 (.recvClient false)] ++ work 1 6 ++ hears 1 0 2 5 ++ hears 2 0 1 6 ++
    [.host 1 (.put "k" "v"), .host 1 (.recvClient false)] ++ work 1 6 ++
    hears 1 2 2 5 ++ hears 1 4 2 5 ++ hears 2 2 1 7

/-- Node 2 hears of that, and is asked for the key. -/
def readAtTwo : List NetworkEvent := hears 1 6 2 6 ++ [.host 2 (.get "k")]

theorem spawned_threeReplicas : Network.Spawned threeNodes.peers threeReplicas := by
  refine ⟨fun id addr h => ?_, rfl⟩
  have hmem := mem_threeNodes h
  simp only [List.mem_cons, List.not_mem_nil, or_false, Prod.mk.injEq] at hmem
  rcases hmem with ⟨rfl, rfl⟩ | ⟨rfl, rfl⟩ | ⟨rfl, rfl⟩ <;> rfl

theorem one_history_three_nodes : ∃ s₁ s₂ : Network replicating,
    run (Network.step threeNodes.peers) threeReplicas putAtOne = some s₁ ∧
    run (Network.step threeNodes.peers) s₁ readAtTwo = some s₂ ∧
    (1, .put (.ok "v")) ∈ (s₁.hosts 1).worker.replies ∧ (s₂.hosts 2).Reads "k" (some "v") ∧
    ∃ p p', PutAt (replicating.slots putLog 2) p "k" "v" ∧ p ≤ p' ∧
      LastPut (replicating.slots putLog 2) "k" p' "v" := by
  have hrun₁ : (run (Network.step threeNodes.peers) threeReplicas putAtOne).map (fun s =>
      ((s.hosts 1).worker.replies.filterMap fun reply => reply.2.acknowledged.map (reply.1, ·),
        (s.hosts 1).history.accepted.map Accepted.key, (s.hosts 1).position)) =
      some ([(1, "v")], ["k"], 2) := by decide +kernel
  have hrun₂ : (run (Network.step threeNodes.peers) threeReplicas (putAtOne ++ readAtTwo)).map
      (fun s => (((s.hosts 2).phase.isSelecting, (s.hosts 2).clientQueue),
        (s.hosts 2).worker.node.valueFor "k", (s.hosts 1).history.delivered,
        (s.hosts 2).history.delivered, (s.hosts 3).history.delivered)) =
      some ((true, [.get "k" 0]), some "v", putLog, putLog, []) := by decide +kernel
  obtain ⟨s₁, hs₁, hfacts₁⟩ := Option.map_eq_some_iff.mp hrun₁
  obtain ⟨s₂, hs₂, hfacts₂⟩ := Option.map_eq_some_iff.mp hrun₂
  simp only [Prod.mk.injEq] at hfacts₁ hfacts₂
  obtain ⟨hacks, haccepted, hposition₁⟩ := hfacts₁
  obtain ⟨⟨hphase, hqueue⟩, hvalue, hone, htwo, hthree⟩ := hfacts₂
  obtain ⟨t, ht, hrun⟩ := run_append_eq_some.mp hs₂
  obtain rfl := Option.some_inj.mp (hs₁.symm.trans ht)
  have hack : (1, .put (.ok "v")) ∈ (s₁.hosts 1).worker.replies :=
    Reply.mem_of_acknowledged (by rw [hacks]; decide)
  have hread : (s₂.hosts 2).Reads "k" (some "v") :=
    hvalue ▸ Host.reads_of_get (Phase.isSelecting_iff.mp hphase) hqueue
  have hlog : ∀ id ∈ threeNodes.peers, (s₂.hosts id).history.delivered <+: putLog := by
    intro id hid
    obtain ⟨addr, haddr⟩ := Option.isSome_iff_exists.mp (Std.TreeMap.mem_iff_isSome_getElem?.mp hid)
    have hmem := mem_threeNodes haddr
    simp only [List.mem_cons, List.not_mem_nil, or_false, Prod.mk.injEq] at hmem
    rcases hmem with ⟨rfl, -⟩ | ⟨rfl, -⟩ | ⟨rfl, -⟩
    · exact hone ▸ List.prefix_rfl
    · exact htwo ▸ List.prefix_rfl
    · exact hthree ▸ List.nil_prefix
  obtain ⟨-, -, hputs⟩ := one_history spawned_threeReplicas ⟨_, hs₁⟩ ⟨_, hrun⟩ hlog
    1 (by decide) 2 (by decide)
  obtain ⟨put, hput, hch, hvalue, p, hat, hreads⟩ := hputs 1 "v" hack
  have hkey : put.key = "k" := by
    have hmem := List.mem_map_of_mem (f := Accepted.key) hput
    rw [haccepted] at hmem
    exact List.mem_singleton.mp hmem
  have hposition₂ : (s₂.hosts 2).position = 2 := by rw [Host.position, htwo]; rfl
  rw [hposition₁] at hat
  rw [hposition₂, hkey] at hreads
  obtain ⟨p', value', hle, hv, hlast⟩ := hreads _ hread (putAt_slots.mp hat).1
  cases hv
  exact ⟨s₁, s₂, hs₁, hrun, hack, hread, p, p', hkey ▸ hat, hle, hlast⟩

end

end Raft
