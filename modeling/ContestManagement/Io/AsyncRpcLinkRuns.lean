import ContestManagement.Io.AsyncRpcLinkMoves

/-!
# A call runs its method at most once

The messages of a connection come out as they went in, so what a server reads is the request of a
call, and what the client reads is the response to it.  A request is written once, whatever becomes of
its connection.
-/

namespace ContestManagement
namespace Io
namespace Rpc

open Lib

section Wires

variable (loads : List UInt8 → Option PyValue) (dumps : PyValue → Option (List UInt8))
  (service : String → Attribute)

/-- What is between the two ends of a connection. -/
structure Connection.Wired (c : Connection) : Prop where
  server : c.server.Sound loads dumps service
  read : c.server.tasks.map RequestTask.data =
    (c.requests.take c.server.tasks.length).map fun r => r.2 ++ [13, 10]
  toServer : c.toServer = framed 13 10 ((c.requests.drop c.server.tasks.length).map Prod.snd)
  toClient : ∃ n, n ≤ c.server.written.length ∧
    c.toClient = framed 13 10 ((c.server.written.drop n).map Prod.snd)

end Wires

namespace Server

variable {loads : List UInt8 → Option PyValue} {dumps : PyValue → Option (List UInt8)}
  {service : String → Attribute} {s t : Server}

theorem data_note {index : Nat} {change : RequestTask → RequestTask}
    (hchange : ∀ task, (change task).data = task.data) :
    (s.note index change).tasks.map RequestTask.data = s.tasks.map RequestTask.data := by
  refine List.ext_getElem? fun place => ?_
  rw [note_tasks, List.getElem?_map, List.getElem?_map, List.getElem?_modify, Option.map_eq_map,
    Option.map_map]
  congr 1
  funext task
  rw [Function.comp_apply]
  split
  · exact hchange task
  · rfl

/-- The lines of the tasks stay. -/
theorem Move.data (hmove : Move loads dumps service s t) :
    t.tasks.map RequestTask.data = s.tasks.map RequestTask.data := by
  cases hmove with
  | reading b => rfl
  | finalize =>
      rw [Server.finalize, List.map_map]
      rfl
  | write _ _ _ _ _ _ => exact data_note fun _ => rfl
  | _ => exact data_note fun _ => rfl

theorem Moves.data (hmoves : Moves loads dumps service s t) :
    t.tasks.map RequestTask.data = s.tasks.map RequestTask.data := by
  induction hmoves with
  | refl => rfl
  | tail _ hmove ih => exact hmove.data.trans ih

end Server

namespace Connection

variable {loads : List UInt8 → Option PyValue} {tooDeep : List UInt8 → Bool}
  {dumps : PyValue → Option (List UInt8)} {service : String → Attribute} {c : Connection}

theorem wired_fresh : Wired loads dumps service fresh :=
  ⟨Server.sound_fresh, rfl, rfl, 0, Nat.le_refl 0, rfl⟩

theorem Wired.length_le (h : c.Wired loads dumps service) :
    c.server.tasks.length ≤ c.requests.length := by
  have hlength := congrArg List.length h.read
  rw [List.length_map, List.length_map, List.length_take] at hlength
  omega

theorem Wired.carry (h : c.Wired loads dumps service) (index : Nat) (data : List UInt8) :
    (c.carry index data).Wired loads dumps service := by
  have hle := h.length_le
  refine ⟨h.server, h.read.trans ?_, ?_, h.toClient⟩
  · rw [Connection.carry]
    dsimp only
    rw [List.take_append_of_le_length hle]
  · rw [Connection.carry]
    dsimp only
    rw [h.toServer, List.drop_append_of_le_length hle, List.map_append,
      framed_append]
    rfl

/-- The task of a line has the request that was written. -/
theorem Wired.request (h : c.Wired loads dumps service) {index : Nat} {task : RequestTask}
    (htask : c.server.tasks[index]? = some task) :
    ∃ r, c.requests[index]? = some r ∧ task.data = r.2 ++ [13, 10] := by
  have hdata : (c.server.tasks.map RequestTask.data)[index]? = some task.data := by
    rw [List.getElem?_map, htask]
    rfl
  rw [h.read, List.getElem?_map, Option.map_eq_some_iff] at hdata
  obtain ⟨r, hr, hline⟩ := hdata
  rw [List.getElem?_take] at hr
  split at hr
  · exact ⟨r, hr, hline.symm⟩
  · cases hr

theorem Wired.serve (h : c.Wired loads dumps service) {a : ServerAction} {server : Server}
    (hlocal : a.isLocal = true)
    (hstep : c.server.step loads tooDeep dumps service a = some server) :
    (c.serve server).Wired loads dumps service := by
  rcases h.server.step_cases hstep with ⟨data, rfl, -⟩ | ⟨-, hmoves⟩
  · cases hlocal
  have hdata := hmoves.data
  have hlength : server.tasks.length = c.server.tasks.length := by
    have := congrArg List.length hdata
    rwa [List.length_map, List.length_map] at this
  refine ⟨h.server.step hstep, ?_, ?_, ?_⟩
  · change server.tasks.map _ = (c.requests.take server.tasks.length).map _
    rw [hdata, hlength]
    exact h.read
  · change c.toServer = framed 13 10 ((c.requests.drop server.tasks.length).map Prod.snd)
    rw [hlength]
    exact h.toServer
  · obtain ⟨more, hmore⟩ := hmoves.kept.written
    obtain ⟨n, hn, htoClient⟩ := h.toClient
    change ∃ n, n ≤ server.written.length ∧ c.toClient ++ framed 13 10
      ((server.written.drop c.server.written.length).map Prod.snd) =
        framed 13 10 ((server.written.drop n).map Prod.snd)
    rw [← hmore, htoClient]
    refine ⟨n, ?_, ?_⟩
    · rw [List.length_append]
      omega
    · rw [List.drop_left, List.drop_append_of_le_length hn, List.map_append, framed_append]

/-- The server reads a request. -/
theorem Wired.readRequest (h : c.Wired loads dumps service)
    (hplain : ∀ r ∈ c.requests, 13 ∉ r.2) {line rest : List UInt8} {server : Server}
    (hread : readUntil 13 10 c.toServer = some (line, rest))
    (hstep : c.server.step loads tooDeep dumps service (.readLine line) = some server) :
    Wired loads dumps service { c with toServer := rest, server } := by
  rw [h.toServer] at hread
  obtain ⟨message, more, hmessages, rfl, rfl⟩ := readUntil_framed (fun message hmem => by
    obtain ⟨r, hr, rfl⟩ := List.mem_map.1 hmem
    exact hplain r (List.mem_of_mem_drop hr)) hread
  obtain ⟨r, remaining, hrequests, rfl, rfl⟩ := List.map_eq_cons_iff.1 hmessages
  have hsound := h.server.step hstep
  rcases h.server.step_cases hstep with ⟨data, hdata, rfl⟩ | ⟨hne, -⟩
  swap
  · exact absurd rfl (hne _)
  obtain rfl := ServerAction.readLine.inj hdata
  have hdrop : c.requests.drop (c.server.tasks.length + 1) = remaining := by
    rw [← List.drop_drop, hrequests]
    rfl
  have htake : c.requests.take (c.server.tasks.length + 1) =
      c.requests.take c.server.tasks.length ++ [r] := by
    have hget : c.requests[c.server.tasks.length]? = some r := by
      rw [← List.head?_drop, hrequests]
      rfl
    rw [List.take_add_one, hget]
    rfl
  refine ⟨hsound, ?_, ?_, h.toClient⟩
  · dsimp only
    rw [List.map_append, List.length_append, h.read]
    change _ = (c.requests.take (c.server.tasks.length + 1)).map _
    rw [htake, List.map_append]
    rfl
  · dsimp only
    rw [List.length_append]
    change _ = framed 13 10 ((c.requests.drop (c.server.tasks.length + 1)).map Prod.snd)
    rw [hdrop]

/-- The client reads a response. -/
theorem Wired.readResponse (h : c.Wired loads dumps service)
    (hplain : ∀ w ∈ c.server.written, 13 ∉ w.2) {line rest : List UInt8}
    (hread : readUntil 13 10 c.toClient = some (line, rest)) :
    (∃ w ∈ c.server.written, line = w.2 ++ [13, 10]) ∧
      Wired loads dumps service { c with toClient := rest } := by
  obtain ⟨n, hn, htoClient⟩ := h.toClient
  rw [htoClient] at hread
  obtain ⟨message, more, hmessages, rfl, rfl⟩ := readUntil_framed (fun message hmem => by
    obtain ⟨w, hw, rfl⟩ := List.mem_map.1 hmem
    exact hplain w (List.mem_of_mem_drop hw)) hread
  obtain ⟨w, remaining, hwritten, rfl, rfl⟩ := List.map_eq_cons_iff.1 hmessages
  have hmem : w ∈ c.server.written.drop n := by
    rw [hwritten]
    exact List.mem_cons_self
  have hlt : n < c.server.written.length := by
    by_contra hge
    rw [List.drop_eq_nil_of_le (Nat.le_of_not_lt hge)] at hwritten
    cases hwritten
  refine ⟨⟨w, List.mem_of_mem_drop hmem, rfl⟩, h.server, h.read, h.toServer, n + 1, hlt, ?_⟩
  rw [← List.drop_drop, hwritten]
  rfl

end Connection

namespace Link

variable {loads : List UInt8 → Option PyValue} {tooDeep : List UInt8 → Bool}
  {dumps : PyValue → Option (List UInt8)} {service : String → Attribute} {autoRetry : Bool}
  {s t : Link}

/-- A request that was written is that of a call, which does not write again. -/
def Sent (dumps : PyValue → Option (List UInt8)) (client : Client) (arguments : Dict String PyValue)
    (r : Nat × List UInt8) : Prop :=
  ∃ c data, client.calls[r.1]? = some c ∧ arguments.get? c.id = some data ∧
    dumps (requestOf c.id c.method data) = some r.2 ∧ c.phase.isLocking = false

/-- A line that some server has written. -/
def Wrote (connections : List Connection) (line : List UInt8) : Prop :=
  ∃ (place : Nat) (c : Connection) (w : Nat × List UInt8), connections[place]? = some c ∧
    w ∈ c.server.written ∧ line = w.2 ++ [13, 10]

variable (loads dumps service autoRetry)

structure Linked (s : Link) : Prop where
  client : (rpcMachine loads autoRetry).Reachable s.client
  wired : ∀ (place : Nat) (c : Connection), s.connections[place]? = some c →
    c.Wired loads dumps service
  sent : ∀ (place : Nat) (c : Connection), s.connections[place]? = some c → ∀ r ∈ c.requests,
    Sent dumps s.client s.arguments r
  distinct : ∀ (place other : Nat) (c d : Connection) (i j : Nat) (r q : Nat × List UInt8),
    s.connections[place]? = some c → s.connections[other]? = some d → c.requests[i]? = some r →
    d.requests[j]? = some q → r.1 = q.1 → place = other ∧ i = j
  answers : ∀ answer ∈ s.client.answers, Wrote s.connections answer.data
  processed : ∀ entry ∈ s.client.processed, ∃ line, Wrote s.connections line ∧
    Client.Says loads line entry

variable {loads dumps service autoRetry}

/-! ## The connections go on -/

theorem Wrote.set {connections : List Connection} {place : Nat} {c d : Connection}
    {line : List UInt8} (h : Wrote connections line) (hc : connections[place]? = some c)
    (hwritten : c.server.written <+: d.server.written) :
    Wrote (connections.set place d) line := by
  obtain ⟨other, e, w, he, hw, hline⟩ := h
  by_cases heq : other = place
  · subst heq
    rw [hc, Option.some.injEq] at he
    subst he
    refine ⟨other, d, w, ?_, hwritten.subset hw, hline⟩
    rw [Slots.getElem?_set_of_some hc, if_pos rfl]
  · refine ⟨other, e, w, ?_, hw, hline⟩
    rw [Slots.getElem?_set_of_some hc, if_neg heq]
    exact he

theorem Wrote.concat {connections : List Connection} {d : Connection} {line : List UInt8}
    (h : Wrote connections line) : Wrote (connections ++ [d]) line := by
  obtain ⟨place, c, w, hc, hw, hline⟩ := h
  exact ⟨place, c, w, Slots.getElem?_concat_of_some hc, hw, hline⟩

/-- One connection changes, and no request is written. -/
theorem Linked.setConnection (h : s.Linked loads dumps service autoRetry) {place : Nat}
    {c d : Connection} (hc : s.connections[place]? = some c) (hd : d.Wired loads dumps service)
    (hrequests : d.requests = c.requests) (hwritten : c.server.written <+: d.server.written) :
    Linked loads dumps service autoRetry { s with connections := s.connections.set place d } := by
  -- The requests of the connections are as they were.
  have hback : ∀ (other : Nat) (e : Connection), (s.connections.set place d)[other]? = some e →
      ∃ old, s.connections[other]? = some old ∧ e.requests = old.requests := by
    intro other e he
    rcases Slots.of_getElem?_set he with ⟨rfl, rfl⟩ | ⟨-, hold⟩
    · exact ⟨c, hc, hrequests⟩
    · exact ⟨e, hold, rfl⟩
  refine ⟨h.client, ?_, ?_, ?_, ?_, ?_⟩
  · intro other e he
    rcases Slots.of_getElem?_set he with ⟨-, rfl⟩ | ⟨-, hold⟩
    · exact hd
    · exact h.wired other e hold
  · intro other e he r hr
    obtain ⟨old, hold, hsame⟩ := hback other e he
    rw [hsame] at hr
    exact h.sent other old hold r hr
  · intro first second e f i j r q he hf hr hq
    obtain ⟨old, hold, hsame⟩ := hback first e he
    obtain ⟨old', hold', hsame'⟩ := hback second f hf
    rw [hsame] at hr
    rw [hsame'] at hq
    exact h.distinct first second old old' i j r q hold hold' hr hq
  · intro answer hanswer
    exact (h.answers answer hanswer).set hc hwritten
  · intro entry hentry
    obtain ⟨line, hline, hsays⟩ := h.processed entry hentry
    exact ⟨line, hline.set hc hwritten, hsays⟩

/-- A new connection. -/
theorem Linked.addConnection (h : s.Linked loads dumps service autoRetry) :
    Linked loads dumps service autoRetry { s with connections := s.connections ++ [.fresh] } := by
  -- A request is not one of the new connection.
  have hback : ∀ (other : Nat) (e : Connection),
      (s.connections ++ [Connection.fresh])[other]? = some e → ∀ r ∈ e.requests,
      s.connections[other]? = some e := by
    intro other e he r hr
    rcases Slots.of_getElem?_concat he with hold | ⟨-, rfl⟩
    · exact hold
    · cases hr
  refine ⟨h.client, ?_, ?_, ?_, ?_, ?_⟩
  · intro other e he
    rcases Slots.of_getElem?_concat he with hold | ⟨-, rfl⟩
    · exact h.wired other e hold
    · exact Connection.wired_fresh
  · intro other e he r hr
    exact h.sent other e (hback other e he r hr) r hr
  · intro first second e f i j r q he hf hr hq
    exact h.distinct first second e f i j r q (hback first e he r (List.mem_of_getElem? hr))
      (hback second f hf q (List.mem_of_getElem? hq)) hr hq
  · intro answer hanswer
    exact (h.answers answer hanswer).concat
  · intro entry hentry
    obtain ⟨line, hline, hsays⟩ := h.processed entry hentry
    exact ⟨line, hline.concat, hsays⟩

/-! ## The client goes on -/

/-- The client takes a step in which no request is written. -/
theorem Linked.moveClient (h : s.Linked loads dumps service autoRetry) {a : RpcAction}
    {client : Client} {arguments : Dict String PyValue}
    (hstep : s.client.step loads autoRetry a = some client)
    (harguments : ∀ c ∈ s.client.calls, arguments.get? c.id = s.arguments.get? c.id)
    (hanswers : ∀ answer ∈ client.answers, Wrote s.connections answer.data)
    (hprocessed : ∀ entry ∈ client.processed, ∃ line, Wrote s.connections line ∧
      Client.Says loads line entry) :
    Linked loads dumps service autoRetry { s with client, arguments } := by
  have hclient : (rpcMachine loads autoRetry).Reachable client :=
    h.client.extend ((Machine.Path.refl s.client).step trivial hstep)
  refine ⟨hclient, h.wired, ?_, h.distinct, hanswers, hprocessed⟩
  intro place e he r hr
  obtain ⟨c, data, hc, hdata, hdumps, hlocking⟩ := h.sent place e he r hr
  obtain ⟨d, hd, hsteady⟩ := (Client.good_of_reachable h.client).sound.steady hstep r.1 c hc
  refine ⟨d, data, hd, ?_, ?_, ?_⟩
  · rw [hsteady.id, harguments c (List.mem_of_getElem? hc)]
    exact hdata
  · rw [hsteady.id, hsteady.method]
    exact hdumps
  · by_contra hne
    rw [Bool.not_eq_false] at hne
    rw [hsteady.locking hne] at hlocking
    cases hlocking

/-- A step of the client in which it does not hear of a server. -/
theorem Linked.quiet (h : s.Linked loads dumps service autoRetry) {client : Client}
    (hquiet : Client.Quiet s.client client) :
    (∀ answer ∈ client.answers, Wrote s.connections answer.data) ∧
      ∀ entry ∈ client.processed, ∃ line, Wrote s.connections line ∧
        Client.Says loads line entry := by
  rw [hquiet.answers, hquiet.processed]
  exact ⟨h.answers, h.processed⟩

/-- A request that was not written before is written. -/
theorem Linked.send (h : s.Linked loads dumps service autoRetry) {index : Nat} {bytes : List UInt8}
    (hnew : ∀ (place : Nat) (c : Connection), s.connections[place]? = some c →
      ∀ r ∈ c.requests, r.1 ≠ index)
    (hsent : Sent dumps s.client s.arguments (index, bytes)) (connection : Option Nat) :
    (s.send connection index bytes).Linked loads dumps service autoRetry := by
  unfold Link.send
  split
  case h_1 => exact h
  case h_2 place =>
    -- A request is an old one, or the new one at its place.
    have hback : ∀ (other : Nat) (e : Connection) (i : Nat) (r : Nat × List UInt8),
        (s.connections.modify place fun c => c.carry index bytes)[other]? = some e →
        e.requests[i]? = some r → ∃ old, s.connections[other]? = some old ∧
          (old.requests[i]? = some r ∨
            place = other ∧ i = old.requests.length ∧ r = (index, bytes)) := by
      intro other e i r he hr
      obtain ⟨old, hold, rfl⟩ := Slots.of_getElem?_modify he
      refine ⟨old, hold, ?_⟩
      split at hr
      case isTrue hplace =>
        rcases Slots.of_getElem?_concat hr with hsame | ⟨hi, hr⟩
        · exact Or.inl hsame
        · exact Or.inr ⟨hplace, hi, hr⟩
      case isFalse => exact Or.inl hr
    have hwrote : ∀ line, Wrote s.connections line →
        Wrote (s.connections.modify place fun c => c.carry index bytes) line := by
      rintro line ⟨other, c, w, hc, hw, hline⟩
      refine ⟨other, _, w, Slots.getElem?_modify_of_some hc, ?_, hline⟩
      split
      · exact hw
      · exact hw
    refine ⟨h.client, ?_, ?_, ?_, ?_, ?_⟩
    · intro other e he
      obtain ⟨old, hold, rfl⟩ := Slots.of_getElem?_modify he
      split
      · exact (h.wired other old hold).carry index bytes
      · exact h.wired other old hold
    · intro other e he r hr
      obtain ⟨i, hi⟩ := List.mem_iff_getElem?.1 hr
      obtain ⟨old, hold, hsame | ⟨-, -, rfl⟩⟩ := hback other e i r he hi
      · exact h.sent other old hold r (List.mem_of_getElem? hsame)
      · exact hsent
    · intro first second e f i j r q he hf hr hq hsame
      obtain ⟨old, hold, hr' | ⟨rfl, hi, rfl⟩⟩ := hback first e i r he hr
      · obtain ⟨old', hold', hq' | ⟨-, -, rfl⟩⟩ := hback second f j q hf hq
        · exact h.distinct first second old old' i j r q hold hold' hr' hq' hsame
        · exact absurd hsame (hnew first old hold r (List.mem_of_getElem? hr'))
      · obtain ⟨old', hold', hq' | ⟨rfl, hj, rfl⟩⟩ := hback second f j q hf hq
        · exact absurd hsame.symm (hnew second old' hold' q (List.mem_of_getElem? hq'))
        · rw [hold, Option.some.injEq] at hold'
          rw [hi, hj, hold']
          exact ⟨rfl, rfl⟩
    · exact fun answer hanswer => hwrote _ (h.answers answer hanswer)
    · intro entry hentry
      obtain ⟨line, hline, hsays⟩ := h.processed entry hentry
      exact ⟨line, hwrote line hline, hsays⟩

/-! ## Steps -/

theorem Linked.call (h : s.Linked loads dumps service autoRetry) {id method : String}
    {data : PyValue} {drain : Drain}
    (hstep : s.step loads tooDeep dumps service autoRetry (.call id method data drain) = some t) :
    t.Linked loads dumps service autoRetry := by
  rw [Link.step] at hstep
  dsimp only at hstep
  split at hstep
  case h_1 => cases hstep
  case h_2 client hclient =>
    have hfresh := Client.call_fresh hclient
    have hquiet := h.quiet (Client.quiet_step hclient nofun nofun)
    have hnext : Linked loads dumps service autoRetry
        { s with client, arguments := s.arguments.set id data } := by
      refine h.moveClient hclient (fun c hc => ?_) hquiet.1 hquiet.2
      rw [Dict.get?_set, if_neg (hfresh c hc)]
    split at hstep
    case h_1 =>
      obtain rfl := Option.some.inj hstep
      exact hnext
    case h_2 bytes hbytes =>
      split at hstep
      case isFalse =>
        obtain rfl := Option.some.inj hstep
        exact hnext
      case isTrue hwrites =>
        obtain rfl := Option.some.inj hstep
        rw [hbytes] at hclient
        obtain ⟨c, hc, hid, hmethod, hlocking⟩ :=
          Client.call_written hclient hwrites
        refine hnext.send ?_ ⟨c, data, hc, ?_, ?_, hlocking⟩ _
        · intro place e he r hr heq
          obtain ⟨d, -, hd, -⟩ := h.sent place e he r hr
          rw [heq] at hd
          exact absurd (Slots.lt_length_of_some hd) (lt_irrefl _)
        · rw [hid, Dict.get?_set, if_pos rfl]
        · rw [hid, hmethod]
          exact hbytes

theorem Linked.accept (h : s.Linked loads dumps service autoRetry)
    (hstep : s.step loads tooDeep dumps service autoRetry .accept = some t) :
    t.Linked loads dumps service autoRetry := by
  rw [Link.step] at hstep
  split at hstep
  case h_1 => cases hstep
  case h_2 client hclient =>
    obtain rfl := Option.some.inj hstep
    have hquiet := h.quiet (Client.quiet_step hclient nofun nofun)
    exact (h.moveClient hclient (fun _ _ => rfl) hquiet.1 hquiet.2).addConnection

/-- The messages of a server have no separator in them. -/
theorem Linked.plain_written (hplain : ∀ value data, dumps value = some data → 13 ∉ data)
    (h : s.Linked loads dumps service autoRetry) {place : Nat} {c : Connection}
    (hc : s.connections[place]? = some c) : ∀ w ∈ c.server.written, 13 ∉ w.2 := by
  intro w hw
  obtain ⟨task, response, -, -, -, hdata⟩ := (h.wired place c hc).server.written w.1 w.2 hw
  exact hplain _ _ hdata

theorem Linked.receive (hplain : ∀ value data, dumps value = some data → 13 ∉ data)
    (h : s.Linked loads dumps service autoRetry)
    (hstep : s.step loads tooDeep dumps service autoRetry .receive = some t) :
    t.Linked loads dumps service autoRetry := by
  rw [Link.step] at hstep
  split at hstep
  case h_2 => cases hstep
  case h_1 reader source hloop =>
    split at hstep
    case h_1 => cases hstep
    case h_2 c hc =>
      split at hstep
      case h_1 => cases hstep
      case h_2 line rest hread =>
        split at hstep
        case h_1 => cases hstep
        case h_2 client hclient =>
          obtain rfl := Option.some.inj hstep
          obtain ⟨⟨w, hw, hline⟩, hwired⟩ :=
            (h.wired source c hc).readResponse (h.plain_written hplain hc) hread
          have hset := h.setConnection hc hwired rfl List.prefix_rfl
          obtain ⟨reader', source', hloop', hanswers, hprocessed⟩ := Client.answers_step hclient
          rw [hloop] at hloop'
          obtain ⟨rfl, rfl⟩ := Loop.reading.inj hloop'
          refine hset.moveClient hclient (fun _ _ => rfl) ?_ ?_
          · intro answer hanswer
            rw [hanswers] at hanswer
            rcases List.mem_append.1 hanswer with hold | hlast
            · exact hset.answers answer hold
            · rw [List.mem_singleton.1 hlast]
              refine ⟨source, { c with toClient := rest }, w, ?_, hw, hline⟩
              rw [Slots.getElem?_set_of_some hc, if_pos rfl]
          · rw [hprocessed]
            exact hset.processed

/-- The client does something that the other side has no part in. -/
theorem Linked.moveLocal (h : s.Linked loads dumps service autoRetry) {a : RpcAction}
    {client : Client} (hlocal : a.isLocal = true)
    (hclient : s.client.step loads autoRetry a = some client) :
    Linked loads dumps service autoRetry { s with client } := by
  have hread : ∀ data, a ≠ .readLine data := by
    rintro data rfl
    cases hlocal
  by_cases hprocess : ∀ place, a ≠ .process place
  · have hquiet := h.quiet (Client.quiet_step hclient hread hprocess)
    exact h.moveClient hclient (fun _ _ => rfl) hquiet.1 hquiet.2
  · push Not at hprocess
    obtain ⟨place, rfl⟩ := hprocess
    obtain ⟨answer, hanswer, hanswers, hprocessed⟩ := Client.processed_step hclient
    refine h.moveClient hclient (fun _ _ => rfl) ?_ ?_
    · intro other hother
      rw [hanswers] at hother
      exact h.answers other (List.mem_of_mem_eraseIdx hother)
    · rcases hprocessed with hsame | ⟨entry, hsays, hnew⟩
      · rw [hsame]
        exact h.processed
      · intro other hother
        rw [hnew] at hother
        rcases List.mem_append.1 hother with hold | hlast
        · exact h.processed other hold
        · rw [List.mem_singleton.1 hlast]
          exact ⟨answer.data, h.answers answer (List.mem_of_getElem? hanswer), hsays⟩

theorem Linked.clientStep (h : s.Linked loads dumps service autoRetry) {a : RpcAction}
    (hstep : s.step loads tooDeep dumps service autoRetry (.client a) = some t) :
    t.Linked loads dumps service autoRetry := by
  rw [Link.step] at hstep
  split at hstep
  case isFalse => cases hstep
  case isTrue hlocal =>
    split at hstep
    case h_1 => cases hstep
    case h_2 client hclient =>
      have hnext := h.moveLocal hlocal hclient
      dsimp only at hstep
      split at hstep
      case h_2 =>
        obtain rfl := Option.some.inj hstep
        exact hnext
      case h_1 index drain =>
        split at hstep
        case h_1 =>
          obtain rfl := Option.some.inj hstep
          exact hnext
        case h_2 bytes hbytes =>
          obtain rfl := Option.some.inj hstep
          obtain ⟨⟨c, hc, hlocking⟩, d, hd, hphase⟩ := Client.call_acquired hclient
          obtain ⟨e, he, hsteady⟩ :=
            (Client.good_of_reachable h.client).sound.steady hclient index c hc
          rw [hd, Option.some.injEq] at he
          subst he
          rw [requestAt, hc] at hbytes
          obtain ⟨data, hdata, hdumps⟩ := Option.bind_eq_some_iff.1 hbytes
          refine hnext.send ?_ ⟨d, data, hd, ?_, ?_, hphase⟩ _
          · intro place e he r hr heq
            obtain ⟨b, -, hb, -, -, hpast⟩ := h.sent place e he r hr
            rw [heq, hc, Option.some.injEq] at hb
            rw [← hb, hlocking] at hpast
            cases hpast
          · rw [hsteady.id]
            exact hdata
          · rw [hsteady.id, hsteady.method]
            exact hdumps

theorem Linked.requestStep (hplain : ∀ value data, dumps value = some data → 13 ∉ data)
    (h : s.Linked loads dumps service autoRetry) {place : Nat}
    (hstep : s.step loads tooDeep dumps service autoRetry (.request place) = some t) :
    t.Linked loads dumps service autoRetry := by
  rw [Link.step] at hstep
  split at hstep
  case h_1 => cases hstep
  case h_2 c hc =>
    split at hstep
    case h_1 => cases hstep
    case h_2 line rest hread =>
      split at hstep
      case h_1 => cases hstep
      case h_2 server hserver =>
        obtain rfl := Option.some.inj hstep
        have hwired := h.wired place c hc
        refine h.setConnection hc (hwired.readRequest (fun r hr => ?_) hread hserver) rfl
          (hwired.server.kept_step hserver).written
        obtain ⟨d, data, -, -, hdumps, -⟩ := h.sent place c hc r hr
        exact hplain _ _ hdumps

theorem Linked.serverStep (h : s.Linked loads dumps service autoRetry) {place : Nat}
    {a : ServerAction}
    (hstep : s.step loads tooDeep dumps service autoRetry (.server place a) = some t) :
    t.Linked loads dumps service autoRetry := by
  rw [Link.step] at hstep
  split at hstep
  case isFalse => cases hstep
  case isTrue hlocal =>
    split at hstep
    case h_1 => cases hstep
    case h_2 c hc =>
      split at hstep
      case h_1 => cases hstep
      case h_2 server hserver =>
        obtain rfl := Option.some.inj hstep
        have hwired := h.wired place c hc
        exact h.setConnection hc (hwired.serve hlocal hserver) rfl
          (hwired.server.kept_step hserver).written

theorem linked_fresh : Linked loads dumps service autoRetry fresh := by
  refine ⟨⟨.fresh, rfl, Machine.Path.refl _⟩, ?_, ?_, ?_, ?_, ?_⟩
  · exact fun _ _ hc => (nomatch hc)
  · exact fun _ _ hc => (nomatch hc)
  · exact fun _ _ _ _ _ _ _ _ hc => (nomatch hc)
  · exact fun _ hanswer => (nomatch hanswer)
  · exact fun _ hentry => (nomatch hentry)

theorem linked_of_reachable (hplain : ∀ value data, dumps value = some data → 13 ∉ data)
    (h : (linkMachine loads tooDeep dumps service autoRetry).Reachable s) :
    s.Linked loads dumps service autoRetry := by
  refine h.invariant ?_ ?_
  · rintro s rfl
    exact linked_fresh
  · intro s a t hs hmove
    have hstep : s.step loads tooDeep dumps service autoRetry a = some t := hmove
    cases a with
    | call id method data drain => exact hs.call hstep
    | accept => exact hs.accept hstep
    | receive => exact hs.receive hplain hstep
    | client a => exact hs.clientStep hstep
    | request place => exact hs.requestStep hplain hstep
    | server place a => exact hs.serverStep hstep

/-! ## A request and its response -/

/-- A task has the request of a call. -/
theorem Linked.call_of_task
    (hloads : ∀ value data, dumps value = some data → loads (data ++ [13, 10]) = some value)
    (h : s.Linked loads dumps service autoRetry) {place index : Nat} {c : Connection}
    {task : RequestTask} (hc : s.connections[place]? = some c)
    (htask : c.server.tasks[index]? = some task) :
    ∃ r call data, c.requests[index]? = some r ∧ s.client.calls[r.1]? = some call ∧
      s.arguments.get? call.id = some data ∧
      loads task.data = some (requestOf call.id call.method data) := by
  obtain ⟨r, hr, hline⟩ := (h.wired place c hc).request htask
  obtain ⟨call, data, hcall, hdata, hdumps, -⟩ := h.sent place c hc r (List.mem_of_getElem? hr)
  refine ⟨r, call, data, hr, hcall, hdata, ?_⟩
  rw [hline]
  exact hloads _ _ hdumps

end Link

theorem get?_id_requestOf (id method : String) (data : PyValue) :
    (requestOf id method data).get? "__id" = some (.str id) := rfl

theorem get?_method_requestOf (id method : String) (data : PyValue) :
    (requestOf id method data).get? "__method" = some (.str method) := rfl

theorem get?_data_requestOf (id method : String) (data : PyValue) :
    (requestOf id method data).get? "__data" = some data := rfl

/-- What a request asks for. -/
theorem asks_requestOf {loads : List UInt8 → Option PyValue} {service : String → Attribute}
    {line : List UInt8} {id method : String} {data : PyValue} {call : Invocation}
    (hload : loads line = some (requestOf id method data)) (hasks : Asks loads service line call) :
    call = ⟨.str id, method, data⟩ := by
  obtain ⟨request, hrequest, hid, hmethod, hdata, -⟩ := hasks
  rw [hload, Option.some.injEq] at hrequest
  subst hrequest
  rw [get?_id_requestOf, Option.some.injEq] at hid
  rw [get?_method_requestOf, Option.some.injEq, PyValue.str.injEq] at hmethod
  rw [get?_data_requestOf, Option.some.injEq] at hdata
  rw [hid, hmethod, hdata]

/-- An answer that was processed is the response to the call with its id. -/
theorem Link.Linked.response_of_entry {loads : List UInt8 → Option PyValue}
    {dumps : PyValue → Option (List UInt8)} {service : String → Attribute} {autoRetry : Bool}
    (hloads : ∀ value data, dumps value = some data → loads (data ++ [13, 10]) = some value)
    {s : Link} (h : s.Linked loads dumps service autoRetry) {entry : Processed}
    (hentry : entry ∈ s.client.processed) :
    ∃ (number place index : Nat) (call : RpcCall) (data : PyValue) (c : Connection)
      (task : RequestTask), s.client.calls[number]? = some call ∧ call.id = entry.id ∧
      s.arguments.get? call.id = some data ∧ s.connections[place]? = some c ∧
      c.server.tasks[index]? = some task ∧
      loads task.data = some (requestOf call.id call.method data) ∧
      task.response = some ⟨.str entry.id, entry.data, entry.error⟩ := by
  obtain ⟨line, ⟨place, c, w, hc, hw, rfl⟩, value, hvalue, hid, hdata, herror⟩ :=
    h.processed entry hentry
  obtain ⟨task, response, htask, -, hresponse, hdumps⟩ :=
    (h.wired place c hc).server.written w.1 w.2 hw
  -- The line is the response that the server has made.
  rw [hloads _ _ hdumps, Option.some.injEq] at hvalue
  subst hvalue
  have hmade : response = ⟨.str entry.id, entry.data, entry.error⟩ := by
    obtain ⟨id, data, error⟩ := response
    obtain rfl := Option.some.inj hid
    obtain rfl := Option.some.inj hdata
    obtain rfl := Option.some.inj herror
    rfl
  subst hmade
  obtain ⟨r, call, data, hr, hcall, harguments, hload⟩ := h.call_of_task hloads hc htask
  obtain ⟨request, hrequest, hsame⟩ :=
    (((h.wired place c hc).server.tasks w.1 task htask).response _ hresponse).id
  rw [hload, Option.some.injEq] at hrequest
  subst hrequest
  rw [get?_id_requestOf, Option.some.injEq, PyValue.str.injEq] at hsame
  exact ⟨r.1, place, w.1, call, data, c, task, hcall, hsame, harguments, hc, htask, hload, hresponse⟩

/-- In every run of a client and its service, whatever becomes of the connections, a method is run
only for a call, with its arguments, and for no call twice, on one connection or on several; a
call that returns a value returns what the method gave that was run for it; and an answer that
the client processes is the response to the call with its id. -/
theorem calls_run_at_most_once {loads : List UInt8 → Option PyValue} {tooDeep : List UInt8 → Bool}
    {dumps : PyValue → Option (List UInt8)} {service : String → Attribute} {autoRetry : Bool}
    (hloads : ∀ value data, dumps value = some data → loads (data ++ [13, 10]) = some value)
    (hplain : ∀ value data, dumps value = some data → 13 ∉ data) {s : Link}
    (hs : (linkMachine loads tooDeep dumps service autoRetry).Reachable s) :
    (∀ (place index : Nat) (c : Connection) (task : RequestTask) (run : Invocation),
      s.connections[place]? = some c → c.server.tasks[index]? = some task →
      task.invocation = some run →
      (∃ (number : Nat) (call : RpcCall) (data : PyValue), s.client.calls[number]? = some call ∧
        s.arguments.get? call.id = some data ∧ run = ⟨.str call.id, call.method, data⟩) ∧
      ∀ (other position : Nat) (d : Connection) (task' : RequestTask) (run' : Invocation),
        s.connections[other]? = some d → d.server.tasks[position]? = some task' →
        task'.invocation = some run' → run.id = run'.id → place = other ∧ index = position) ∧
    (∀ (number : Nat) (call : RpcCall) (value : PyValue), s.client.calls[number]? = some call →
      call.phase = .ended (.value value) →
      ∃ (place index : Nat) (c : Connection) (task : RequestTask) (data : PyValue),
        s.connections[place]? = some c ∧ c.server.tasks[index]? = some task ∧
        s.arguments.get? call.id = some data ∧
        task.invocation = some ⟨.str call.id, call.method, data⟩ ∧
        task.result = some (.value value)) ∧
    (∀ entry ∈ s.client.processed, ∃ (number place index : Nat) (call : RpcCall) (c : Connection)
        (task : RequestTask), s.client.calls[number]? = some call ∧ call.id = entry.id ∧
      s.connections[place]? = some c ∧ c.server.tasks[index]? = some task ∧
      task.response = some ⟨.str entry.id, entry.data, entry.error⟩ ∧
      (entry.error = .none → task.result = some (.value entry.data)) ∧
      (entry.error ≠ .none → entry.data = .none ∧ ∃ message, entry.error = .str message ∧
        (task.result = some (.raises message) ∨ task.invocation = none))) := by
  have hlinked := Link.linked_of_reachable hplain hs
  have hclient := (Client.good_of_reachable hlinked.client).sound
  refine ⟨?_, ?_, ?_⟩
  · intro place index c task run hc htask hrun
    obtain ⟨r, call, data, hr, hcall, hdata, hload⟩ := hlinked.call_of_task hloads hc htask
    have hasks := ((hlinked.wired place c hc).server.tasks index task htask).invoked run hrun
    obtain rfl := asks_requestOf hload hasks
    refine ⟨⟨r.1, call, data, hcall, hdata, rfl⟩, ?_⟩
    intro other position d task' run' hd htask' hrun' hid
    obtain ⟨q, call', data', hq, hcall', -, hload'⟩ := hlinked.call_of_task hloads hd htask'
    have hasks' := ((hlinked.wired other d hd).server.tasks position task' htask').invoked run' hrun'
    obtain rfl := asks_requestOf hload' hasks'
    have hids : call.id = call'.id := PyValue.str.inj hid
    have hsame := hclient.ids r.1 q.1 call call' hcall hcall' hids
    exact hlinked.distinct place other c d index position r q hc hd hr hq hsame
  · intro number call value hcall hphase
    have hcalls := hclient.calls number call hcall
    obtain ⟨place', entry, -, hentry, hid, herror, rfl, -⟩ :=
      hcalls.result value (hcalls.value value hphase)
    obtain ⟨other, place, index, call', data, c, task, hcall', hid', hdata, hc, htask, hload,
      hresponse⟩ := hlinked.response_of_entry hloads (List.mem_of_getElem? hentry)
    -- It is the same call, for it has the same id.
    obtain rfl := hclient.ids number other call call' hcall hcall' (hid.symm.trans hid'.symm)
    rw [hcall, Option.some.injEq] at hcall'
    subst hcall'
    have htasks := (hlinked.wired place c hc).server.tasks index task htask
    have hresult := (htasks.response _ hresponse).value herror
    obtain ⟨run, hrun⟩ := Option.isSome_iff_exists.1 (htasks.ended (Option.isSome_of_eq_some hresult))
    have hasks := asks_requestOf hload (htasks.invoked run hrun)
    rw [hasks] at hrun
    exact ⟨place, index, c, task, data, hc, htask, hdata, hrun, hresult⟩
  · intro entry hentry
    obtain ⟨number, place, index, call, data, c, task, hcall, hid, -, hc, htask, -, hresponse⟩ :=
      hlinked.response_of_entry hloads hentry
    have hfits := ((hlinked.wired place c hc).server.tasks index task htask).response _ hresponse
    refine ⟨number, place, index, call, c, task, hcall, hid, hc, htask, hresponse, hfits.value,
      fun herror => ?_⟩
    obtain ⟨hnothing, message, hmessage, hwhy⟩ := hfits.error herror
    exact ⟨hnothing, message, hmessage, hwhy.imp_right And.left⟩

/-! ### One call -/

theorem loadsMessage_dumpsMessage (value : PyValue) (data : List UInt8)
    (h : dumpsMessage value = some data) : loadsMessage (data ++ [13, 10]) = some value := by
  unfold dumpsMessage at h
  split at h
  · split at h
    case isTrue hmessage =>
      obtain ⟨rfl, rfl⟩ := hmessage
      obtain rfl := Option.some.inj h
      exact if_pos rfl
    case isFalse => cases h
  · split at h
    case isTrue hmessage =>
      obtain ⟨rfl, rfl⟩ := hmessage
      obtain rfl := Option.some.inj h
      have hne : responseText ++ [13, 10] ≠ requestText ++ [13, 10] := by decide +kernel
      exact (if_neg hne).trans (if_pos rfl)
    case isFalse => cases h
  · cases h

theorem plain_dumpsMessage (value : PyValue) (data : List UInt8)
    (h : dumpsMessage value = some data) : 13 ∉ data := by
  unfold dumpsMessage at h
  split at h
  · split at h
    · obtain rfl := Option.some.inj h
      decide +kernel
    · cases h
  · split at h
    · obtain rfl := Option.some.inj h
      decide +kernel
    · cases h
  · cases h

/-- A call that has returned. -/
def callReturned : Link :=
  ((linkMachine loadsMessage (fun _ => false) dumpsMessage queueService true).exec .fresh
    [.client .connect, .accept, .call requestId "queue_length" (.dict []) .done, .request 0,
      .server 0 (.begin 0 (some (.value (.int 3))) .done), .receive, .client (.process 0),
      .client (.resume 0)]).get (by decide +kernel)

theorem calls_run_at_most_once_returned :
    ∃ (place index : Nat) (c : Connection) (task : RequestTask),
      callReturned.connections[place]? = some c ∧ c.server.tasks[index]? = some task ∧
      task.result = some (.value (.int 3)) := by
  have hreached : (linkMachine loadsMessage (fun _ => false) dumpsMessage queueService true).Reachable
      callReturned := Machine.reachable_of_exec rfl (Option.some_get _).symm
  obtain ⟨-, hvalue, -⟩ :=
    calls_run_at_most_once loadsMessage_dumpsMessage plain_dumpsMessage hreached
  have hcall : callReturned.client.calls[0]? = some ⟨requestId, "queue_length",
    .ended (.value (.int 3)), .result (.int 3), false, some 0, some 0⟩ := by rfl
  obtain ⟨place, index, c, task, data, hc, htask, -, -, hresult⟩ := hvalue 0 _ (.int 3) hcall rfl
  exact ⟨place, index, c, task, hc, htask, hresult⟩

end Rpc
end Io
end ContestManagement
