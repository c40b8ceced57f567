import PeerShare.Proofs.Remote.Answers

/-!
The registry seen from afar is the registry. An operation that is sent as a request, dispatched by
the server and read out of its answer leaves the registry as the operation itself does, and comes
back with what it answers. Two things change on the way: a span of time is cut to whole
milliseconds, as many as 64 bits can say, and a failure of the store comes back in words.
-/

namespace PeerShare.Catalog

inductive Operation : Type → Type
  | list (peer : PeerId) (o : Offer) : Operation Unit
  | delist (fileName : String) (peer : PeerId) : Operation Bool
  | search (query : String) : Operation (List Hit)
  | resolveOwner (i : EntryId) : Operation (Option Offer)
  | heartbeat (peer : PeerId) : Operation Bool
  | disconnect (peer : PeerId) : Operation Unit
  | livenessWindow : Operation Span

namespace Operation
variable {α : Type}

def withoutValue {β : Type} (a : Answer β) : Answer Unit := (a.1.map fun _ => (), a.2)

def direct (r : Registry) (now : Instant) : Operation α → Except Halt (Answer α)
  | list peer o => (r.list now peer o).map withoutValue
  | delist fileName peer => .ok (r.delist fileName peer)
  | search query => .ok (r.search now query, r)
  | resolveOwner i => .ok (r.resolveOwner now i, r)
  | heartbeat peer => .ok (r.heartbeat now peer)
  | disconnect peer => .ok (withoutValue (r.disconnect peer))
  | livenessWindow => .ok (.ok r.livenessWindow, r)

def request : Operation α → Request
  | list peer o => .list peer o
  | delist fileName peer => .delist fileName peer
  | search query => .search query
  | resolveOwner i => .resolveOwner i
  | heartbeat peer => .heartbeat peer
  | disconnect peer => .disconnect peer
  | livenessWindow => .livenessWindow

def receive (c : Remote) (d : Delivery) : Operation α → Except CatalogError α
  | list peer o => c.list peer o d
  | delist fileName peer => c.delist fileName peer d
  | search query => c.search query d
  | resolveOwner i => c.resolveOwner i d
  | heartbeat peer => c.heartbeat peer d
  | disconnect peer => c.disconnect peer d
  | livenessWindow => c.livenessWindow d

def remote (c : Remote) (s : Server) (now : Instant) (q : Operation α) :
    Except CatalogError α × Server :=
  let (d, s) := s.exchange now q.request
  (q.receive c d, s)

def inMillis (d : Span) : Span :=
  ⟨min d.wholeMillis (UInt64.size - 1) * 1000000, by
    have size : UInt64.size = 18446744073709551616 := rfl
    omega⟩

def carried : Operation α → α → α
  | livenessWindow, d => inMillis d
  | _, a => a

/-- What comes back for an answer of the registry. -/
inductive Conveys :
    {α : Type} → Operation α → Except CatalogError α → Except CatalogError α → Prop
  | value {α : Type} {q : Operation α} (a : α) : Conveys q (.ok a) (.ok (q.carried a))
  | store {α : Type} {q : Operation α} (e : StoreError) :
      Conveys q (.error (.store e)) (.error (.unavailable (CatalogError.store e).message))
  | invalidFileName (peer : PeerId) (o : Offer) :
      Conveys (list peer o) (.error (.invalidFileName o.fileName))
        (.error (.invalidFileName o.fileName))

/-! ### Failures of the registry -/

def FailsInStore (x : Except CatalogError α) : Prop := ∀ e, x = .error e → ∃ f, e = .store f

section Failures
variable {β : Type} {r r' : Registry} {now : Instant} {x : Except CatalogError α}

theorem failsInStore_ok (a : α) : FailsInStore (.ok a) := by
  rintro _ ⟨⟩

theorem FailsInStore.map (h : FailsInStore x) (f : α → β) : FailsInStore (x.map f) := by
  cases x with
  | ok a => exact failsInStore_ok (f a)
  | error e =>
    rintro _ ⟨⟩
    exact h e rfl

theorem failsInStore_state (r : Registry) (st : Store → Except StoreError α × Store) :
    FailsInStore (r.state st).1 := by
  intro e he
  rw [Registry.state] at he
  split at he
  · cases he
    exact ⟨_, rfl⟩
  · cases hs : (st r.store).1 with
    | ok a =>
      simp only [hs] at he
      cases he
    | error f =>
      simp only [hs] at he
      cases he
      exact ⟨f, rfl⟩

theorem failsInStore_look (r : Registry) (query : Table → α) : FailsInStore (r.look query) := by
  intro e he
  rw [Registry.look] at he
  split at he <;> cases he
  exact ⟨_, rfl⟩

theorem list_fails {peer : PeerId} {o : Offer} {x : Except CatalogError Listing}
    (h : r.list now peer o = .ok (x, r')) :
    x = .error (.invalidFileName o.fileName) ∨ FailsInStore x := by
  rw [Registry.list] at h
  split at h
  · cases h
    exact .inl rfl
  · refine .inr ?_
    split at h
    · cases h
      rintro _ ⟨⟩
      exact ⟨_, rfl⟩
    · cases hu : r.store.upsert peer o now with
      | error halt =>
        rw [hu] at h
        cases h
      | ok u =>
        rw [hu] at h
        cases h
        rcases u with ⟨a | a, s⟩ <;> rintro _ ⟨⟩
        exact ⟨a, rfl⟩

end Failures

/-! ### Operations -/

section Operations
variable {β : Type} {c : Remote} {s : Server} {now : Instant}

theorem remote_eq {x : Answer β} {name : String} {value : β → Json} (c : Remote) {q : Operation α}
    (hd : s.dispatch now q.request = s.take name value x) : q.remote c s now =
      (q.receive c (.received (Session.responseLine (Server.respond name value x.1))),
        { s with registry := x.2 }) := by
  rw [remote, s.exchange_eq, hd]
  rfl

theorem conveys_field (c : Remote) {q : Operation α} {x : Answer α} {name : String}
    {value : α → Json} {read : Json → Except Json.Fault α} (hx : FailsInStore x.1)
    (hd : s.dispatch now q.request = s.take name value x)
    (hr : ∀ d, q.receive c d = c.askField q.request name read d)
    (plain : ∀ a, Json.Plain 2 (value a)) (back : ∀ a, read (value a) = .ok (q.carried a)) :
    Conveys q x.1 (q.remote c s now).1 ∧ (q.remote c s now).2 = { s with registry := x.2 } := by
  rw [remote_eq c hd, hr, c.askField_respond q.request name x.1 plain back]
  refine ⟨?_, rfl⟩
  obtain ⟨a | e, r⟩ := x
  · obtain ⟨f, rfl⟩ := hx _ rfl
    exact .store f
  · exact .value _

theorem conveys_ask (c : Remote) {q : Operation Unit} {x : Answer β} {name : String}
    {value : β → Json} (hx : (∃ peer o, q = list peer o ∧
      x.1 = .error (.invalidFileName o.fileName)) ∨ FailsInStore x.1)
    (hd : s.dispatch now q.request = s.take name value x)
    (hr : ∀ d, q.receive c d = (c.ask q.request d).map fun _ => ())
    (plain : ∀ b, Json.Plain 2 (value b)) :
    Conveys q (withoutValue x).1 (q.remote c s now).1 ∧
      (q.remote c s now).2 = { s with registry := x.2 } := by
  rw [remote_eq c hd, hr, c.ask_respond q.request name x.1 plain]
  refine ⟨?_, rfl⟩
  obtain ⟨a, r⟩ := x
  rcases hx with ⟨peer, o, rfl, rfl⟩ | hx
  · exact .invalidFileName peer o
  · cases a with
    | ok b => exact .value ()
    | error e =>
      obtain ⟨f, rfl⟩ := hx e rfl
      exact .store f

theorem ofMillis_millis (d : Span) : Span.ofMillis (Server.millis d) = inMillis d := by
  have size : UInt64.size = 18446744073709551616 := rfl
  have whole : (Server.millis d).toNat = min d.wholeMillis (UInt64.size - 1) := by
    rw [Server.millis]
    split <;> rw [UInt64.toNat_ofNat'] <;> omega
  rw [Span.ofMillis, inMillis]
  simp only [whole]

theorem askField_map (c : Remote) (q : Request) (name : String) (read : Json → Except Json.Fault α)
    (f : α → β) (d : Delivery) :
    (c.askField q name read d).map f = c.askField q name (fun v => (read v).map f) d := by
  simp only [Remote.askField, bind, Except.bind]
  cases c.ask q d with
  | error e => rfl
  | ok v =>
    cases hv : read ((v.member? name).getD .null) <;> simp only [hv] <;> rfl

theorem conveys_remote (c : Remote) {q : Operation α} {a : Answer α}
    (h : q.direct s.registry now = .ok a) :
    Conveys q a.1 (q.remote c s now).1 ∧ (q.remote c s now).2 = { s with registry := a.2 } := by
  cases q with
  | list peer o =>
    -- The one operation that can break off, or refuse a name.
    rw [direct] at h
    cases hl : s.registry.list now peer o with
    | error halt =>
      rw [hl] at h
      cases h
    | ok x =>
      rw [hl] at h
      obtain rfl := Except.ok.inj h
      have hd : s.dispatch now (.list peer o) = s.take "id" (fun r => .nat r.id.val) x := by
        simp only [Server.dispatch, hl]
      refine conveys_ask c ?_ hd (fun d => rfl) fun r => .nat r.id.val
      exact (list_fails hl).imp_left fun he => ⟨peer, o, rfl, he⟩
  | delist fileName peer =>
    rw [direct] at h
    obtain rfl := Except.ok.inj h
    have stored : FailsInStore (s.registry.delist fileName peer).1 :=
      (failsInStore_state s.registry (·.deleteOwned fileName peer)).map _
    exact conveys_field c stored rfl (fun d => rfl) (fun b => .bool b) fun b => rfl
  | search query =>
    rw [direct] at h
    obtain rfl := Except.ok.inj h
    have stored : FailsInStore (s.registry.search now query) := failsInStore_look s.registry _
    exact conveys_field c stored rfl (fun d => rfl) Server.hits_plain Remote.readHits_hits
  | resolveOwner i =>
    rw [direct] at h
    obtain rfl := Except.ok.inj h
    have stored : FailsInStore (s.registry.resolveOwner now i) := failsInStore_look s.registry _
    exact conveys_field c stored rfl (fun d => rfl)
      (fun o => (Server.ownerJson_plain o).mono (by decide)) Remote.readOwner_ownerJson
  | heartbeat peer =>
    rw [direct] at h
    obtain rfl := Except.ok.inj h
    have stored : FailsInStore (s.registry.heartbeat now peer).1 :=
      (failsInStore_state s.registry (·.touchOwner peer now)).map _
    exact conveys_field c stored rfl (fun d => rfl) (fun b => .bool b) fun b => rfl
  | disconnect peer =>
    rw [direct] at h
    obtain rfl := Except.ok.inj h
    exact conveys_ask c (.inr (failsInStore_state s.registry (·.deleteOwner peer))) rfl
      (fun d => rfl) fun n => .nat (UInt64.ofNat n)
  | livenessWindow =>
    rw [direct] at h
    obtain rfl := Except.ok.inj h
    have hd : s.dispatch now .livenessWindow = s.take "ttl_ms" (fun d => .nat (Server.millis d))
        (.ok s.registry.livenessWindow, s.registry) := rfl
    refine conveys_field c (failsInStore_ok _) hd
      (fun d => askField_map c .livenessWindow "ttl_ms" Remote.readId Span.ofMillis d)
      (fun d => .nat (Server.millis d)) fun d => ?_
    exact congrArg Except.ok (ofMillis_millis d)

theorem remote_refines_direct (c : Remote) (s : Server) (now : Instant) (q : Operation α)
    {a : Answer α} (h : q.direct s.registry now = .ok a) :
    (q.remote c s now).2 = { s with registry := a.2 } ∧ Conveys q a.1 (q.remote c s now).1 ∧
      ∀ e, a.1 = .error (.store e) → (CatalogError.store e).isTransient = true ∧
        ∃ f, (q.remote c s now).1 = .error f ∧ f.isTransient = true := by
  obtain ⟨conveyed, kept⟩ := conveys_remote c h
  refine ⟨kept, conveyed, fun e he => ⟨rfl, ?_⟩⟩
  rw [he] at conveyed
  cases hr : (q.remote c s now).1 with
  | ok b =>
    rw [hr] at conveyed
    cases conveyed
  | error f =>
    rw [hr] at conveyed
    cases conveyed
    exact ⟨_, rfl, rfl⟩

theorem remote_refines_direct_reached :
    let c : Remote := ⟨"127.0.0.1:7700", Span.second⟩
    let s : Server := { registry := {}, listen := "127.0.0.1:7700", reaperInterval := Span.second }
    let broken : Server := { s with registry := { outage := some "disk \"A\" is away" } }
    let listing : Operation Unit := list ⟨"anna"⟩ ⟨"notes.txt", "10.0.0.1", 7000⟩
    let renewal : Operation Bool := heartbeat ⟨"anna"⟩
    (∃ r : Registry, listing.direct s.registry default = .ok (.ok (), r) ∧
      r.store.table.count = 1 ∧ (listing.remote c s default).2 = { s with registry := r } ∧
      Conveys listing (.ok ()) (listing.remote c s default).1) ∧
    ∃ e, renewal.direct broken.registry default = .ok (.error (.store e), broken.registry) ∧
      Conveys renewal (.error (.store e)) (renewal.remote c broken default).1 := by
  intro c s broken listing renewal
  refine ⟨⟨_, rfl, rfl, ?_⟩, ⟨_, rfl, ?_⟩⟩
  · have listed := remote_refines_direct c s default listing rfl
    exact ⟨listed.1, listed.2.1⟩
  · exact (remote_refines_direct c broken default renewal rfl).2.1

end Operations
end Operation
end PeerShare.Catalog
