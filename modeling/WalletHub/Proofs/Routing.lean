import WalletHub.Proofs.Announced

/-!
# Queries and methods keep in step

Which method of a service is called, in which shape its result travels, and which method of an
engine takes it, are three tables over the kinds of requests. Two shorter ones say what they come
to: `QueryService.returned`, what the service returns for a request, and
`QueryRequest.announcement`, the method for the kind of a request. Kinds whose values are of one
type are kept apart by these alone.

* `QueryService.result_execute`: a result travels in the shape for its kind.
* `Announcement.ofResult_result`: in that shape it reaches the method for the kind as it was.
* `QueryRequest.builds_iff`: the answers that some service gives to a request.
* `Announcement.ofResult_of_not_builds`: any other answer reaches the same method as a failure.
* `QueryClient.execute_service`: the client with prepared answers is such a service.
-/
namespace WalletHub

variable {σ : Type}

/-! ## Services -/

namespace QueryService

/-- What the method for the kind of a request returns. -/
def returned (s : QueryService σ) (network : Network) (x : σ) :
    (q : QueryRequest) → Except QueryError q.Value
  | .balance address token => (s.balance network address token x).2
  | .transactions address first last => (s.transactions network address first last x).2
  | .logs address contract topic first last =>
    (s.logs network address contract topic first last x).2
  | .blocks address first last => (s.blocks network address first last x).2
  | .blockNumber => (s.blockNumber network x).2
  | .nonce address => (s.nonce network address x).2
  | .gasPrice => (s.gasPrice network x).2
  | .gasEstimate source target amount data =>
    (s.gasEstimate network source target amount data x).2
  | .submit transaction => (s.submit network transaction x).2

theorem result_execute (s : QueryService σ) (network : Network) (x : σ) (q : QueryRequest) :
    (s.execute network x q).2 = q.result (s.returned network x q) := by
  cases q <;> rfl

/-- A service that has nothing to say, whatever it is asked. -/
def silent : QueryService Unit where
  balance _ _ _ _ := ((), .error (.rejected ""))
  transactions _ _ _ _ _ := ((), .error (.rejected ""))
  logs _ _ _ _ _ _ _ := ((), .error (.rejected ""))
  blocks _ _ _ _ _ := ((), .error (.rejected ""))
  blockNumber _ _ := ((), .error (.rejected ""))
  nonce _ _ _ := ((), .error (.rejected ""))
  gasPrice _ _ := ((), .error (.rejected ""))
  gasEstimate _ _ _ _ _ _ := ((), .error (.rejected ""))
  submit _ _ _ := ((), .error (.rejected ""))

/-- A service that has this to say to requests of one kind. -/
def saying : (q : QueryRequest) → q.Value → QueryService Unit
  | .balance .., b => { silent with balance := fun _ _ _ _ => ((), .ok b) }
  | .transactions .., ts => { silent with transactions := fun _ _ _ _ _ => ((), .ok ts) }
  | .logs .., ls => { silent with logs := fun _ _ _ _ _ _ _ => ((), .ok ls) }
  | .blocks .., bs => { silent with blocks := fun _ _ _ _ _ => ((), .ok bs) }
  | .blockNumber, n => { silent with blockNumber := fun _ _ => ((), .ok n) }
  | .nonce _, n => { silent with nonce := fun _ _ _ => ((), .ok n) }
  | .gasPrice, p => { silent with gasPrice := fun _ _ => ((), .ok p) }
  | .gasEstimate .., g => { silent with gasEstimate := fun _ _ _ _ _ _ => ((), .ok g) }
  | .submit _, h => { silent with submit := fun _ _ _ => ((), .ok h) }

theorem execute_saying (q : QueryRequest) (v : q.Value) (network : Network) :
    ((saying q v).execute network () q).2 = .ok (q.response v) := by
  cases q <;> rfl

end QueryService

namespace QueryClient

/-- A call of the client is logged, and then it fails or the tables are asked. -/
theorem shape_call {α : Type} (label : α → QueryResponse) (c : QueryClient) (network : Network)
    (q : QueryRequest) (go : QueryClient → QueryClient × Except QueryError α) :
    QueryService.shape label (c.call network q go) =
      match c.accept network q with
      | (c', some e) => (c', .error e)
      | (c', none) => QueryService.shape label (go c') := by
  unfold call
  rcases c.accept network q with ⟨c', _ | e⟩ <;> rfl

/-- The client with prepared answers runs a request by the methods that it has. -/
theorem execute_service (c : QueryClient) (network : Network) (q : QueryRequest) :
    service.execute network c q = c.execute network q := by
  cases q <;> refine (shape_call ..).trans ?_ <;> unfold execute complete <;>
    rcases c.accept network _ with ⟨c', _ | e⟩ <;> rfl

end QueryClient

namespace QueryRequest

/-- Some service gives this answer to a request. -/
def Builds (q : QueryRequest) (r : QueryResponse) : Prop :=
  ∃ (s : QueryService Unit) (network : Network), (s.execute network () q).2 = .ok r

/-- The answers to a request are the values of its kind, in their shape. -/
theorem builds_iff {q : QueryRequest} {r : QueryResponse} :
    q.Builds r ↔ ∃ v, q.response v = r := by
  constructor
  · rintro ⟨s, network, given⟩
    rw [s.result_execute] at given
    cases hv : s.returned network () q with
    | error e =>
      rw [hv] at given
      cases given
    | ok v =>
      rw [hv] at given
      cases given
      exact ⟨v, rfl⟩
  · rintro ⟨v, rfl⟩
    exact ⟨.saying q v, .ethereum true, QueryService.execute_saying ..⟩

/-! ## Methods -/

/-- The method of an engine for the kind of a request. -/
def announcement : (q : QueryRequest) → Except QueryError q.Value → Announcement
  | balance .., v => .balance v
  | transactions .., v => .transactions v
  | logs .., v => .logs v
  | blocks .., v => .blocks v
  | blockNumber, v => .blockNumber v
  | nonce _, v => .nonce v
  | gasPrice, v => .gasPrice v
  | gasEstimate .., v => .gasEstimate v
  | submit _, v => .submit v

end QueryRequest

namespace Announcement

/-- A value in the shape for its kind is handed over as it was, and so is an error. -/
theorem ofResult_result (q : QueryRequest) (v : Except QueryError q.Value) :
    ofResult q (q.result v) = q.announcement v := by
  cases q <;> cases v <;> rfl

/-- An answer that no service gives to a request reaches the method as a failure. -/
theorem ofResult_of_not_builds {q : QueryRequest} {r : QueryResponse} (foreign : ¬q.Builds r) :
    ofResult q (.ok r) =
      q.announcement (.error (.malformedResponse ("unexpected response to " ++ q.kind))) := by
  have other : ∀ v, q.response v ≠ r := fun v hv => foreign (QueryRequest.builds_iff.2 ⟨v, hv⟩)
  cases q <;> cases r <;> first | rfl | exact absurd rfl (other _)

end Announcement

/-! ## Engines -/

namespace Engine

/-- **Routing.** What a service returns for a request reaches an engine that has the method for its
kind through that method, value or error as it was. An answer that no service gives to the request
reaches the engine through the same method, as a malformed one. -/
theorem announce_execute {e : Engine} {q : QueryRequest} (supports : e.backend.Supports q)
    (s : QueryService σ) (network : Network) (x : σ) (m : UInt64) (i : RequestId) :
    e.announce m i q (s.execute network x q).2 =
      ({ e with
          announced := e.announced ++ [⟨m, i, q.announcement (s.returned network x q)⟩] },
        .ok ()) ∧
    ∀ r, ¬q.Builds r →
      e.announce m i q (.ok r) =
        ({ e with
            announced := e.announced ++
              [⟨m, i, q.announcement
                (.error (.malformedResponse ("unexpected response to " ++ q.kind)))⟩] },
          .ok ()) := by
  refine ⟨?_, fun r foreign => ?_⟩
  · rw [announce_eq supports, s.result_execute, Announcement.ofResult_result]
  · rw [announce_eq supports, Announcement.ofResult_of_not_builds foreign]

/-- The price of gas and a nonce are both asked of an engine for accounts. A number of a block is no
answer to either, also where it is the same number. -/
theorem announce_execute_gasPrice :
    (create .account false).backend.Supports .gasPrice ∧
    ((create .account false).announce 0x2000 ⟨1⟩ .gasPrice
        (QueryClient.service.execute (.ethereum true) .empty .gasPrice).2).1.announced =
      [⟨0x2000, ⟨1⟩, .gasPrice (.ok "1000000000")⟩] ∧
    ((create .account false).announce 0x2000 ⟨2⟩ (.nonce "0x01")
        (.ok (.blockNumber 3))).1.announced =
      [⟨0x2000, ⟨2⟩, .nonce (.error (.malformedResponse "unexpected response to get_nonce"))⟩] := by
  have price : (create .account false).backend.Supports .gasPrice := by decide
  have nonce : (create .account false).backend.Supports (.nonce "0x01") := by decide
  have foreign : ¬(QueryRequest.nonce "0x01").Builds (.blockNumber 3) := by
    rw [QueryRequest.builds_iff]
    rintro ⟨v, hv⟩
    cases hv
  refine ⟨price, ?_, ?_⟩
  · rw [(announce_execute price QueryClient.service (.ethereum true) .empty 0x2000 ⟨1⟩).1]
    rfl
  · rw [(announce_execute nonce QueryClient.service (.ethereum true) .empty 0x2000 ⟨2⟩).2 _ foreign]
    rfl

end Engine

end WalletHub
