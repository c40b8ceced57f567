import PeerShare.Proofs.Server.Exchange

/-!
What the registry answers with is what is read out of the answer at the other side: each value has a
reader that takes it back from its JSON, and a failure keeps its class.
-/

namespace PeerShare

/-! ### Values -/

namespace Server

theorem hitJson_plain (h : Hit) : Json.Plain 1 (hitJson h) :=
  .obj (by simp [Json.Plain.str, Json.Plain.nat])
    (Json.ordered_of_names rfl (by decide : ["file_name", "id"].Pairwise (· < ·)))

theorem hits_plain (hs : List Hit) : Json.Plain 2 (.arr (hs.map hitJson)) :=
  .arr fun v hv => by
    obtain ⟨h, -, rfl⟩ := List.mem_map.mp hv
    exact hitJson_plain h

theorem offerJson_plain (o : Offer) : Json.Plain 1 (offerJson o) :=
  .obj (by simp [Json.Plain.str, Json.Plain.nat])
    (Json.ordered_of_names rfl (by decide : ["address", "file_name", "port"].Pairwise (· < ·)))

theorem ownerJson_plain (o : Option Offer) : Json.Plain 1 (ownerJson o) := by
  cases o with
  | none => exact .null
  | some o => exact offerJson_plain o

theorem statusJson_plain (s : Server) : Json.Plain 1 s.statusJson := by
  refine .obj ?_ (Json.ordered_of_names rfl (by decide : ["entries", "grace_secs", "listen",
    "reaper_interval_secs", "running", "started_at_unix", "store", "ttl_secs"].Pairwise (· < ·)))
  have count (n : Nat) : Json.Plain 0 (.count n) := .nat _
  simp only [List.forall_mem_cons, List.not_mem_nil, false_implies, implies_true, and_true, count,
    Json.Plain.str, Json.Plain.bool]
  split
  · exact count _
  · exact .null

end Server

namespace Remote

theorem readHit_hitJson (h : Hit) : readHit (Server.hitJson h) = .ok h := by
  have read : Json.readFieldsByName [("id", .id), ("file_name", .text)]
      [("file_name", .str h.fileName), ("id", .nat h.id.val)] =
        .ok [.id h.id.val, .text h.fileName] :=
    Json.readFieldsByName_named [("file_name", .text h.fileName), ("id", .id h.id.val)]
      (by decide) (by simp) (by simp [Json.Scalar.kind]) (by simp)
  simp only [readHit, Server.hitJson, readRecord, read, bind, Except.bind]
  rfl

theorem readHits_hits (hs : List Hit) : readHits (.arr (hs.map Server.hitJson)) = .ok hs := by
  induction hs with
  | nil => rfl
  | cons h hs ih =>
    rw [readHits] at ih ⊢
    rw [List.map_cons, List.mapM_cons, readHit_hitJson, ih]
    rfl

theorem readOffer_offerJson (o : Offer) : readOffer (Server.offerJson o) = .ok o := by
  have read : Json.readFieldsByName [("file_name", .text), ("address", .text), ("port", .port)]
      [("address", .str o.address), ("file_name", .str o.fileName),
        ("port", .nat o.port.toUInt64)] =
        .ok [.text o.fileName, .text o.address, .port o.port] :=
    Json.readFieldsByName_named
      [("address", .text o.address), ("file_name", .text o.fileName), ("port", .port o.port)]
      (by decide) (by simp) (by simp [Json.Scalar.kind]) (by simp)
  simp only [readOffer, Server.offerJson, readRecord, read, bind, Except.bind]
  rfl

theorem readOwner_ownerJson (o : Option Offer) : readOwner (Server.ownerJson o) = .ok o := by
  cases o with
  | none => rfl
  | some o =>
    have back := readOffer_offerJson o
    rw [Server.offerJson] at back
    simp only [Server.ownerJson, Server.offerJson, readOwner, back]
    rfl

end Remote

/-! ### Answers -/

section Answers
variable {α β : Type} {name : String} {value : α → Json} 

theorem Server.holds_respond (name : String) (x : Except CatalogError α)
    (h : ∀ a, Json.Plain 2 (value a)) : (respond name value x).Holds := by
  cases x with
  | error e => exact Response.holds_ofError e
  | ok a =>
    rintro v ⟨⟩
    have plain : Json.Plain 3 (.obj [(name, value a)]) :=
      .obj (by simpa using h a) (List.pairwise_singleton _ _)
    exact ⟨nofun, plain.mono (by decide)⟩

theorem Server.holds_dispatch (s : Server) (now : Instant) (q : Request) :
    (s.dispatch now q).1.Holds := by
  cases q with
  | list peer o =>
    rw [dispatch]
    split
    · exact holds_respond _ _ fun r => .nat _
    · exact Response.holds_failure _ _
  | delist fileName peer => exact holds_respond _ _ fun b => .bool b
  | search query => exact holds_respond _ _ hits_plain
  | resolveOwner i => exact holds_respond _ _ fun o => (ownerJson_plain o).mono (by decide)
  | heartbeat peer => exact holds_respond _ _ fun b => .bool b
  | disconnect peer => exact holds_respond _ _ fun n => .nat _
  | livenessWindow =>
    have plain (d : Span) : Json.Plain 2 (.nat (millis d)) := .nat (millis d)
    exact holds_respond "ttl_ms" (.ok s.registry.livenessWindow) plain
  | status =>
    rintro v ⟨⟩
    exact ⟨nofun, s.statusJson_plain.mono (by decide)⟩

theorem Remote.ask_respond (c : Remote) (q : Request) (name : String) (x : Except CatalogError α)
    (h : ∀ a, Json.Plain 2 (value a)) :
    c.ask q (.received (Session.responseLine (Server.respond name value x))) =
      (x.map fun a => .obj [(name, value a)]).mapError fun e => failureOf q (.ofError e) := by
  rw [c.ask_responseLine q (Server.holds_respond name x h)]
  cases x with
  | ok a => rfl
  | error e => cases e <;> rfl

theorem Remote.askField_respond (c : Remote) (q : Request) (name : String)
    {read : Json → Except Json.Fault β} {back : α → β} (x : Except CatalogError α)
    (h : ∀ a, Json.Plain 2 (value a)) (hr : ∀ a, read (value a) = .ok (back a)) :
    c.askField q name read (.received (Session.responseLine (Server.respond name value x))) =
      (x.map back).mapError fun e => failureOf q (.ofError e) := by
  rw [askField, c.ask_respond q name x h]
  cases x with
  | ok a =>
    simp [Except.map, Except.mapError, bind, Except.bind, Json.member?, hr, pure, Except.pure]
  | error e => rfl

end Answers
end PeerShare
