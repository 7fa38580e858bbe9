/-
What the connections of the chat carry.

* `Carries` — one direction of a connection: what has arrived and what is in transit are the
  lines that were written, and the reader has made of them what a reader can whose reads may
  be dropped;
* `PeerRight`, `peerRight_step` — both directions, and what the client shows; every step of
  the mesh keeps it;
* `peerRight_of_run` — in every run, with what is known when nothing is dropped.
-/
import AsyncRust.ChatSides

namespace Chat

open LineReader Runs

/-! ### Messages on their way -/

section
variable {T : Type}

/-- One direction of a connection.  Of the messages that the writing side has tried to
write, `sent` are written; what has arrived and what is in transit are their lines, and as
long as the writing side is `alive` nothing else. -/
structure Carries (json : Serde T) (strict : Prop) (alive : Bool) (sent tried : List T)
    (link : Link) (reading : Reading (ReadResult T)) : Prop where
  isPrefix : sent <+: tried
  onWay : bytesOf reading.arrived ++ link.transit <+: (linesOf json tried).flatten
  whole : alive = true → bytesOf reading.arrived ++ link.transit = (linesOf json sent).flatten
  opened : link.ended = false → ∀ fill ∈ reading.arrived, fill.isData = true
  told : reading.Told (readMessage json.fromStr) messageOf strict

section
variable {json : Serde T} {strict : Prop} {alive alive' : Bool} {sent sent' tried tried' : List T}
  {link link' : Link} {reading reading' : Reading (ReadResult T)} {message : T}

theorem carries_new : Carries json strict alive [] tried .new .start where
  isPrefix := List.nil_prefix
  onWay := List.nil_prefix
  whole _ := rfl
  opened _ := List.forall_mem_nil _
  told := told_start

/-- More is tried, or nothing is written any more. -/
theorem Carries.grow (h : Carries json strict alive sent tried link reading)
    (htried : tried <+: tried') (halive : alive' = true → alive = true) :
    Carries json strict alive' sent tried' link reading where
  isPrefix := h.isPrefix.trans htried
  onWay := h.onWay.trans (linesOf_isPrefix json htried)
  whole := fun halive' => h.whole (halive halive')
  opened := h.opened
  told := h.told

theorem Carries.wrote (h : Carries json strict true sent tried link reading) (cut : ℕ)
    (htried : sent ++ [message] <+: tried') :
    Carries json strict alive' (sent ++ [message]) tried'
      (link.write (emitted json message true cut)) reading := by
  have hwhole : bytesOf reading.arrived ++ (link.write (emitted json message true cut)).transit =
      (linesOf json (sent ++ [message])).flatten := by
    rw [linesOf_append, ← h.whole rfl, List.append_assoc]
    simp [Link.write, emitted, linesOf]
  exact ⟨htried, hwhole ▸ linesOf_isPrefix json htried, fun _ => hwhole, h.opened, h.told⟩

/-- A part of the line is on its way when the write fails. -/
theorem Carries.failed (h : Carries json strict true sent tried link reading) (cut : ℕ)
    (htried : sent ++ [message] <+: tried') :
    Carries json strict false sent tried' (link.write (emitted json message false cut))
      reading := by
  refine ⟨(List.prefix_append _ _).trans htried, ?_, by simp, h.opened, h.told⟩
  refine List.IsPrefix.trans ?_ (linesOf_isPrefix json htried)
  rw [linesOf_append, ← h.whole rfl, List.append_assoc, Link.write, List.prefix_append_right_inj,
    List.prefix_append_right_inj]
  simpa [emitted, linesOf] using List.take_prefix _ _

theorem Carries.carry (h : Carries json strict alive sent tried link reading) {closed : Bool}
    {what : Carried} {fill : Fill} (hcarry : link.carry closed what = some (fill, link')) :
    Carries json strict alive sent tried link' (reading.feed fill) := by
  have hbytes : bytesOf (reading.feed fill).arrived = bytesOf reading.arrived ++ fill.bytes := by
    simp [Reading.feed, bytesOf]
  -- the transport moves bytes, and no data follows the end
  obtain ⟨htransit, hopen, hended⟩ : fill.bytes ++ link'.transit = link.transit ∧
      link.ended = false ∧ (link'.ended = false → fill.isData = true) := by
    cases what with
    | bytes more =>
      simp only [Link.carry] at hcarry
      split at hcarry
      · cases hcarry
      · rename_i byte rest htransit
        split at hcarry
        · cases hcarry
        · rename_i hopen
          obtain ⟨rfl, rfl⟩ := Prod.mk.inj (Option.some_inj.mp hcarry)
          exact ⟨by simp [Fill.bytes, htransit], by simpa using hopen, fun _ => rfl⟩
    | eof =>
      simp only [Link.carry] at hcarry
      split at hcarry
      · rename_i hend
        obtain ⟨rfl, rfl⟩ := Prod.mk.inj (Option.some_inj.mp hcarry)
        exact ⟨rfl, hend.2.2, fun hended => by cases hended⟩
      · cases hcarry
    | failed =>
      simp only [Link.carry] at hcarry
      split at hcarry
      · cases hcarry
      · rename_i hopen
        obtain ⟨rfl, rfl⟩ := Prod.mk.inj (Option.some_inj.mp hcarry)
        exact ⟨rfl, by simpa using hopen, fun hended => by cases hended⟩
  refine ⟨h.isPrefix, ?_, fun halive => ?_, fun hend fill' hfill => ?_,
    h.told.feed (h.opened hopen) fill⟩
  · rw [hbytes, List.append_assoc, htransit]
    exact h.onWay
  · rw [hbytes, List.append_assoc, htransit]
    exact h.whole halive
  · rcases List.mem_append.mp hfill with hfill | hfill
    · exact h.opened hopen fill' hfill
    · rw [List.mem_singleton.mp hfill]
      exact hended hend

theorem Carries.read (h : Carries json strict alive sent tried link reading)
    (harrived : reading'.arrived = reading.arrived)
    (htold : reading'.Told (readMessage json.fromStr) messageOf strict) :
    Carries json strict alive sent tried link reading' :=
  ⟨h.isPrefix, harrived ▸ h.onWay, harrived ▸ h.whole, harrived ▸ h.opened, htold⟩

theorem Carries.poll (h : Carries json strict alive sent tried link reading) :
    Carries json strict alive sent tried link (reading.poll (readMessage json.fromStr)).2 :=
  h.read rfl (h.told.poll rfl rfl)

theorem Carries.cancel (h : Carries json strict alive sent tried link reading)
    (hline : strict → reading.reader.line = []) :
    Carries json strict alive sent tried link reading.cancel :=
  h.read rfl (h.told.cancel hline)

end

end

/-! ### Connections -/

/-- What holds of a connection and its client: what is typed is read as by a reader whose reads
may be dropped, both directions carry what was written, and the client shows what it reads. -/
structure PeerRight (client : Serde ClientToServer) (server : Serde ServerToClient)
    (strictIn strictUp strictDown : Prop) (conn : Conn) (peer : Peer) : Prop where
  stdin : peer.client.stdin.Told readStdin typedText strictIn
  saying : peer.client.Saying
  up : Carries client strictUp (!peer.client.gone) peer.client.sent peer.client.messages peer.up
    conn.reading
  tried : conn.phase.intact = true → peer.tried = conn.written.map Written.message
  once : peer.tried.length ≤ conn.written.length + 1
  down : Carries server strictDown conn.phase.intact (conn.written.map Written.message)
    peer.tried peer.down peer.client.reading
  tells : peer.client.Tells

/-- The loops of the clients drop no part of what is typed. -/
def Mesh.inputsDropNothing (server : Serde ServerToClient) (s : Mesh) : MeshEvent → Bool
  | .client c e _ => s.peers[c]?.all fun peer => peer.client.keepsInput server.fromStr e
  | _ => true

/-- The sessions of the broker drop no part of a line. -/
def Mesh.sessionsDropNothing (s : Mesh) : MeshEvent → Bool
  | .task c action _ => s.broker.dropsNothing (.conn c action)
  | _ => true

/-- The loops of the clients drop no part of a line of the broker. -/
def Mesh.clientsDropNothing (s : Mesh) : MeshEvent → Bool
  | .client c e _ => s.peers[c]?.all fun peer => peer.client.dropsNothing e
  | _ => true

section
variable {client : Serde ClientToServer} {server : Serde ServerToClient} {s : Mesh} {e : MeshEvent}
  {strictIn strictUp strictDown : Prop} {c : ℕ} {conn conn' : Conn} {peer peer' : Peer}

theorem PeerRight.clientStep (h : PeerRight client server strictIn strictUp strictDown conn peer)
    {ce : ClientEvent} {cut : ℕ} (he : peer.clientStep client server ce cut = some peer')
    (harrival : ce.isArrival = false)
    (hinput : strictIn → peer.client.keepsInput server.fromStr ce = true)
    (hdrop : strictDown → peer.client.dropsNothing ce = true) :
    PeerRight client server strictIn strictUp strictDown conn peer' := by
  obtain ⟨after, hafter, hpeer⟩ := Option.map_eq_some_iff.mp he
  have heffect := client_effect hafter
  have hnickname := Client.nickname_step hafter
  have hsaying := h.saying.step heffect hnickname
  have htells := h.tells.step hafter harrival
  have hstdin : after.stdin.Told readStdin typedText strictIn := by
    rcases Client.stdin_cases hafter harrival with hstdin | hstdin | ⟨hstdin, hline⟩
    · exact hstdin ▸ h.stdin
    · exact hstdin ▸ h.stdin.poll rfl rfl
    · exact hstdin ▸ h.stdin.cancel fun hs => hline (hinput hs)
  have hread : Carries server strictDown conn.phase.intact (conn.written.map Written.message)
      peer.tried peer.down after.reading := by
    rcases Client.reading_cases hafter harrival with hreading | hreading | ⟨hreading, hline⟩
    · exact hreading ▸ h.down
    · exact hreading ▸ h.down.poll
    · exact hreading ▸ h.down.cancel fun hs => hline (hdrop hs)
  -- a step that writes nothing
  have hquiet : (∀ ok, ce = .write ok → peer.client.writing = none) →
      peer' = { peer with client := after } := by
    intro hnone
    rw [← hpeer]
    split
    · rename_i ok message hwriting
      exact absurd (hnone ok rfl) (by simp [hwriting])
    · rfl
  cases heffect with
  | @wrote message hce hwriting hsent hasked hgone hwriting' =>
    simp only [hce, hwriting] at hpeer
    subst hpeer
    refine ⟨hstdin, hsaying, ?_, h.tried, h.once, hread, htells⟩
    have hup := h.up
    rw [hgone] at hup
    have hsaid := hsent ▸ hsaying.isPrefix
    exact hsent ▸ hup.wrote cut hsaid
  | @failed message hce hwriting hsent hasked hgone hgone' =>
    simp only [hce, hwriting] at hpeer
    subst hpeer
    refine ⟨hstdin, hsaying, ?_, h.tried, h.once, hread, htells⟩
    have hup := h.up
    rw [hgone] at hup
    have hexact := h.saying.exact hgone
    rw [hwriting, Option.toList_some] at hexact
    have hmessages := isPrefix_messages hnickname (hasked ▸ List.prefix_rfl)
    simp only [hgone', hsent]
    exact hup.failed cut (hexact ▸ hmessages)
  | @asked text hce hwriting hsent hasked hgone hwriting' =>
    obtain rfl := hquiet fun ok hok => absurd hok (hce ok)
    have hmessages := isPrefix_messages hnickname (hasked ▸ List.prefix_append _ _)
    refine ⟨hstdin, hsaying, ?_, h.tried, h.once, hread, htells⟩
    simp only [hsent]
    exact h.up.grow hmessages fun _ => by rw [hgone]; rfl
  | quiet hce hsent hasked hgone =>
    obtain rfl := hquiet hce
    have hmessages := isPrefix_messages hnickname (hasked ▸ List.prefix_rfl)
    refine ⟨hstdin, hsaying, ?_, h.tried, h.once, hread, htells⟩
    simp only [hsent]
    refine h.up.grow hmessages fun halive => ?_
    rw [Bool.not_eq_true'] at halive ⊢
    exact (hgone halive).1


theorem PeerRight.taskStep (h : PeerRight client server strictIn strictUp strictDown conn peer)
    {st : BrokerState} {receivers now cut : ℕ} {action : Action} {o : Outcome}
    (hmove : conn.Move client.fromStr st receivers now action o)
    (harrival : action.isArrival = false)
    (hdrop : strictUp → action = .recv → conn.reading.reader.line = []) :
    PeerRight client server strictIn strictUp strictDown o.conn
      (peer.taskStep server conn.phase action cut) := by
  have hread : Carries client strictUp (!peer.client.gone) peer.client.sent peer.client.messages
      peer.up o.conn.reading := by
    rcases hmove.reading_cases harrival with hreading | hreading | ⟨rfl, hreading⟩
    · exact hreading ▸ h.up
    · exact hreading ▸ h.up.poll
    · exact hreading ▸ h.up.cancel fun hs => hdrop hs rfl
  have htried := h.tried
  have hdown := h.down
  cases hmove.effect with
  | @wrote message ha hwriting hintact hwritten =>
    subst ha
    simp only [Peer.taskStep, hwriting]
    have hmore : peer.tried ++ [message] = o.conn.written.map Written.message := by
      rw [htried hintact, hwritten]
    rw [hintact] at hdown
    refine ⟨h.stdin, h.saying, hread, fun _ => hmore, ?_, ?_, h.tells⟩
    · rw [hmore, List.length_map]
      exact Nat.le_succ _
    rw [hwritten]
    exact hdown.wrote cut (by rw [hmore, hwritten])
  | @failed message ha hwriting hintact hwritten hintact' =>
    subst ha
    simp only [Peer.taskStep, hwriting]
    rw [hintact] at hdown
    refine ⟨h.stdin, h.saying, hread, fun hintact => ?_, ?_, ?_, h.tells⟩
    · rw [hintact'] at hintact
      cases hintact
    · rw [htried hintact, hwritten, List.length_append, List.length_map]
      rfl
    · rw [hwritten, hintact']
      exact hdown.failed cut (by rw [htried hintact])
  | quiet ha hwritten hintact =>
    have hpeer : peer.taskStep server conn.phase action cut = peer := by
      unfold Peer.taskStep
      split
      · exact absurd rfl (ha _)
      · rfl
    rw [hpeer]
    refine ⟨h.stdin, h.saying, hread, fun hintact' => ?_, hwritten ▸ h.once, ?_, h.tells⟩
    · rw [htried (hintact hintact'), hwritten]
    · rw [hwritten]
      exact hdown.grow List.prefix_rfl hintact

theorem peerRight_new (nickname : String) :
    PeerRight client server strictIn strictUp strictDown .new (.new nickname) where
  stdin := told_start
  saying := ⟨List.nil_prefix, fun _ => rfl⟩
  up := carries_new
  tried _ := rfl
  once := Nat.zero_le _
  down := carries_new
  tells := rfl

/-- **One step** of the mesh. -/
theorem peerRight_step (hin : strictIn → s.inputsDropNothing server e = true)
    (hup : strictUp → s.sessionsDropNothing e = true)
    (hdown : strictDown → s.clientsDropNothing e = true)
    (h : ∀ conn peer, s.broker.conns[c]? = some conn → s.peers[c]? = some peer →
      PeerRight client server strictIn strictUp strictDown conn peer)
    (hstep : s.PairStep client server e c conn' peer') :
    PeerRight client server strictIn strictUp strictDown conn' peer' := by
  cases hstep with
  | new nickname => exact peerRight_new nickname
  | same hconn hpeer => exact h _ _ hconn hpeer
  | typed hconn hpeer hopen fill =>
    have hright := h _ _ hconn hpeer
    exact ⟨hright.stdin.feed hopen fill, ⟨hright.saying.isPrefix, hright.saying.exact⟩, hright.up,
      hright.tried, hright.once, hright.down, hright.tells⟩
  | clientMoved hconn hpeer he harrival hmove =>
    refine (h _ _ hconn hpeer).clientStep hmove harrival (fun hs => ?_) fun hs => ?_
    · simpa [he, Mesh.inputsDropNothing, hpeer] using hin hs
    · simpa [he, Mesh.clientsDropNothing, hpeer] using hdown hs
  | taskMoved hconn hpeer he harrival hmove =>
    refine (h _ _ hconn hpeer).taskStep hmove harrival fun hs ha => ?_
    simpa [he, ha, Mesh.sessionsDropNothing, Broker.dropsNothing, hconn] using hup hs
  | upCarried hconn hpeer hcarry =>
    have hright := h _ _ hconn hpeer
    exact ⟨hright.stdin, hright.saying, hright.up.carry hcarry, hright.tried, hright.once,
      hright.down, hright.tells⟩
  | downCarried hconn hpeer hcarry =>
    have hright := h _ _ hconn hpeer
    exact ⟨hright.stdin, ⟨hright.saying.isPrefix, hright.saying.exact⟩, hright.up, hright.tried,
      hright.once, hright.down.carry hcarry, hright.tells⟩

/-- **Every run**: what each direction carries, with `strictIn` for runs in which no part of
what is typed is dropped, `strictUp` for those in which no session drops a part of a line, and
`strictDown` for the loops of the clients. -/
theorem peerRight_of_run (strictIn strictUp strictDown : Prop) {es : List MeshEvent}
    (hin : strictIn →
      Meets (Mesh.step client server) (fun s e => s.inputsDropNothing server e = true) .new es)
    (hup : strictUp →
      Meets (Mesh.step client server) (fun s e => s.sessionsDropNothing e = true) .new es)
    (hdown : strictDown →
      Meets (Mesh.step client server) (fun s e => s.clientsDropNothing e = true) .new es)
    (h : run (Mesh.step client server) .new es = some s) :
    s.peers.length = s.broker.conns.length ∧ ∀ (c : ℕ) (conn : Conn) (peer : Peer),
      s.broker.conns[c]? = some conn → s.peers[c]? = some peer →
        PeerRight client server strictIn strictUp strictDown conn peer := by
  refine Mesh.pair_invariant (fun s e => (strictIn → s.inputsDropNothing server e = true) ∧
    (strictUp → s.sessionsDropNothing e = true) ∧
    (strictDown → s.clientsDropNothing e = true)) ?_ ?_ h
  · rintro s e c conn' peer' ⟨hin, hup, hdown⟩ h hstep
    exact peerRight_step hin hup hdown h hstep
  · exact (Meets.of_imp hin).and ((Meets.of_imp hup).and (.of_imp hdown))

end

end Chat
