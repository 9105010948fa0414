import Mathlib.Data.List.Infix
import WalletHub.Proofs.Run
import WalletHub.Query.Client

/-!
# What engines hear of their queries

The service returns a value of the kind that was asked for, or an error (`QueryRequest.Value`). An
engine gets that through the method for its kind of request, if it has one: engines for outputs
lack five of them (`Backend.Supports`). Nothing else that the hub does adds to the answers of an
engine or takes one away (`Hub.keeps_process`), and telling a result adds one answer to one engine
(`Hub.announced_announceResult`).
-/
namespace WalletHub

/-! ## The service -/

namespace QueryRequest

/-- What the service returns for a request of this kind. -/
def Value : QueryRequest → Type
  | balance .. => String
  | transactions .. => List QueryTransaction
  | logs .. => List QueryLog
  | blocks .. => List UInt64
  | blockNumber => UInt64
  | nonce _ => UInt64
  | gasPrice => String
  | gasEstimate .. => UInt64
  | submit _ => String

/-- The answer that says so. -/
def response : (r : QueryRequest) → r.Value → QueryResponse
  | balance .., b => .balance b
  | transactions .., ts => .transactions ts
  | logs .., ls => .logs ls
  | blocks .., bs => .blocks bs
  | blockNumber, n => .blockNumber n
  | nonce _, n => .nonce n
  | gasPrice, p => .gasPrice p
  | gasEstimate .., g => .gasEstimate g
  | submit _, h => .submitted h

/-- The result of a query for which the service returned this. -/
def result (r : QueryRequest) (v : Except QueryError r.Value) : QueryResult := v.map r.response

end QueryRequest

/-- The service with prepared answers returns values of the kind that is asked for. -/
theorem QueryClient.complete_eq_result (c : QueryClient) (failure : Option QueryError)
    (r : QueryRequest) : ∃ v, (c.complete failure r).2 = r.result v := by
  have failed : ∀ e, ∃ v, (.error e : QueryResult) = r.result v := fun e => ⟨.error e, rfl⟩
  cases failure with
  | some e => exact failed e
  | none =>
    cases r with
    | balance address token => exact ⟨c.balanceOf address token, rfl⟩
    | submit bytes => exact ⟨(c.handOver bytes).2, rfl⟩
    | transactions | logs | blocks | blockNumber | nonce | gasPrice | gasEstimate =>
      exact ⟨.ok _, rfl⟩

/-! ## Methods -/

namespace QueryRequest

/-- The name of the method through which an engine gets the answer. -/
def method : QueryRequest → String
  | balance .. => "balance"
  | transactions .. => "transactions"
  | logs .. => "logs"
  | blocks .. => "blocks"
  | blockNumber => "block_number"
  | nonce _ => "nonce"
  | gasPrice => "gas_price"
  | gasEstimate .. => "gas_estimate"
  | submit _ => "submit"

/-- Whether only engines for accounts have that method. -/
def accountOnly : QueryRequest → Bool
  | balance .. | logs .. | nonce _ | gasPrice | gasEstimate .. => true
  | _ => false

end QueryRequest

/-- Whether an engine has the method for a kind of request. -/
def Backend.Supports (b : Backend) (q : QueryRequest) : Prop := b = .account ∨ q.accountOnly = false

instance (b : Backend) (q : QueryRequest) : Decidable (b.Supports q) :=
  inferInstanceAs (Decidable (_ ∨ _))

namespace Announcement

theorem name_ofResult (q : QueryRequest) (r : QueryResult) : (ofResult q r).name = q.method := by
  cases q <;> rfl

theorem isCommon_ofResult (q : QueryRequest) (r : QueryResult) :
    (ofResult q r).isCommon = !q.accountOnly := by
  cases q <;> rfl

/-- A failure is announced as a failure. -/
theorem isSuccess_ofResult_error (q : QueryRequest) (e : QueryError) :
    (ofResult q (.error e)).isSuccess = false := by
  cases q <;> rfl

/-- What the service returns is announced as a success if it is one. -/
theorem isSuccess_ofResult_result (q : QueryRequest) (v : Except QueryError q.Value) :
    (ofResult q (q.result v)).isSuccess = succeeded (q.result v) := by
  cases q <;> cases v <;> rfl

theorem route_of_supports {b : Backend} {q : QueryRequest} (h : b.Supports q) (r : QueryResult) :
    route b q r = .ok (ofResult q r) := by
  refine if_pos (h.imp_right fun hq => ?_)
  rw [isCommon_ofResult, hq]
  rfl

theorem route_of_not_supports {b : Backend} {q : QueryRequest} (h : ¬b.Supports q)
    (r : QueryResult) : ∃ e, route b q r = .error e := by
  refine ⟨_, if_neg fun hb => h (hb.imp_right fun hq => ?_)⟩
  rw [isCommon_ofResult] at hq
  simpa using hq

end Announcement

/-! ## Engines -/

/-- What an engine keeps of its backend and of the answers it got: all of them, and it gets more
only if `answering`. -/
structure Engine.Keeps (answering : Prop) (e e' : Engine) : Prop where
  backend : e'.backend = e.backend
  log : e.announced <+: e'.announced
  quiet : ¬answering → e'.announced = e.announced

namespace Engine

variable {answering : Prop}

theorem Keeps.of_same {e e' : Engine} (backend : e'.backend = e.backend)
    (announced : e'.announced = e.announced) : e.Keeps answering e' :=
  ⟨backend, announced ▸ List.prefix_refl _, fun _ => announced⟩

theorem Keeps.trans {a b c : Engine} (hab : a.Keeps answering b) (hbc : b.Keeps answering c) :
    a.Keeps answering c :=
  ⟨hbc.backend.trans hab.backend, hab.log.trans hbc.log,
    fun h => (hbc.quiet h).trans (hab.quiet h)⟩

/-- A command that leaves backend and answers leaves them, accepted or not. -/
theorem keeps_command {α : Type} (e : Engine) (c : EngineCommand)
    {act : Engine → Engine × List EngineCallback × α}
    (same : ∀ e, (act e).1.backend = e.backend ∧ (act e).1.announced = e.announced) :
    e.Keeps answering (e.command c act).engine := by
  unfold command take
  cases e.failNext with
  | some message => exact .of_same rfl rfl
  | none => exact .of_same (same _).1 (same _).2

theorem announce_eq {e : Engine} {q : QueryRequest} (h : e.backend.Supports q) (m : UInt64)
    (i : RequestId) (r : QueryResult) :
    e.announce m i q r =
      ({ e with announced := e.announced ++ [⟨m, i, .ofResult q r⟩] }, .ok ()) := by
  unfold announce
  rw [Announcement.route_of_supports h]

theorem announce_of_supports {e : Engine} {q : QueryRequest} (h : e.backend.Supports q) (m : UInt64)
    (i : RequestId) (r : QueryResult) :
    (e.announce m i q r).1 =
      { e with announced := e.announced ++ [⟨m, i, .ofResult q r⟩] } := by
  rw [announce_eq h]

theorem announce_of_not_supports {e : Engine} {q : QueryRequest} (h : ¬e.backend.Supports q)
    (m : UInt64) (i : RequestId) (r : QueryResult) : (e.announce m i q r).1 = e := by
  obtain ⟨err, hroute⟩ := Announcement.route_of_not_supports h r
  unfold announce
  rw [hroute]

theorem Move.keeps {e e' : Engine} (move : Move answering e e') : e.Keeps answering e' := by
  cases move with
  | createManager => exact keeps_command e _ fun _ => ⟨rfl, rfl⟩
  | createWallet =>
    unfold Engine.createWallet
    cases hb : e.backend with
    | utxo => exact .of_same rfl rfl
    | account => exact keeps_command e _ fun _ => ⟨rfl, rfl⟩
  | createTransfer => exact keeps_command e _ fun _ => ⟨rfl, rfl⟩
  | plain => exact keeps_command e _ fun _ => ⟨rfl, rfl⟩
  | release =>
    unfold releaseManager take
    cases e.failNext <;> exact .of_same rfl rfl
  | announce asked _ m i q r =>
    by_cases hs : e.backend.Supports q
    · rw [announce_of_supports hs]
      exact ⟨rfl, List.prefix_append _ _, fun h => absurd asked h⟩
    · rw [announce_of_not_supports hs]
      exact .of_same rfl rfl

theorem keeps_of_moves {e e' : Engine} (moves : Relation.ReflTransGen (Move answering) e e') :
    e.Keeps answering e' := by
  induction moves with
  | refl => exact .of_same rfl rfl
  | tail _ move ih => exact ih.trans move.keeps

theorem keeps_adjusted (e : Engine) (x : Setting) : e.Keeps answering (e.adjusted x) := by
  cases x <;> exact .of_same rfl rfl

end Engine

/-! ## Hubs -/

namespace Hub

variable {answering : Prop} {h g : Hub}

/-- The answers to queries that the engine of a backend got. -/
def announced (h : Hub) (b : Backend) : List Announced :=
  ((h.engine? b).map (·.announced)).getD []

/-- Every engine is of the backend that it stands for. -/
def Homed (h : Hub) : Prop := ∀ b e, h.engine? b = some e → e.backend = b

abbrev Keeps (answering : Prop) : Hub → Hub → Prop := Engines (Engine.Keeps answering)

theorem Keeps.homed (hk : h.Keeps answering g) (hh : h.Homed) : g.Homed := by
  intro b e' he'
  rcases hk b with ⟨-, hn⟩ | ⟨e, e₁, he, he₁, keeps⟩
  · rw [hn] at he'
    cases he'
  · rw [he₁] at he'
    cases he'
    rw [keeps.backend]
    exact hh b e he

theorem Keeps.announced_prefix (hk : h.Keeps answering g) (b : Backend) :
    h.announced b <+: g.announced b := by
  unfold announced
  rcases hk b with ⟨hn, hn'⟩ | ⟨e, e', he, he', keeps⟩
  · rw [hn, hn']
  · rw [he, he']
    exact keeps.log

theorem Keeps.announced_eq (hk : h.Keeps answering g) (quiet : ¬answering) (b : Backend) :
    g.announced b = h.announced b := by
  unfold announced
  rcases hk b with ⟨hn, hn'⟩ | ⟨e, e', he, he', keeps⟩
  · rw [hn, hn']
  · rw [he, he']
    exact keeps.quiet quiet

theorem keeps_process (h : Hub) (c : Command) : h.Keeps c.isAnswering (h.process c).hub :=
  (moves_process h c).engines.mono Engine.keeps_of_moves

theorem keeps_adjusted (h : Hub) (b : Backend) (x : Setting) :
    h.Keeps answering (h.adjusted b x) := by
  have refl : ∀ e : Engine, e.Keeps answering e := fun _ => .of_same rfl rfl
  unfold adjusted
  split
  · rename_i e he; exact engines_withEngine refl he (e.keeps_adjusted x)
  · exact .refl refl h

/-- Of the engines, the one that is told a result hears it, if it has the method. -/
theorem announced_announceResult (hh : h.Homed) {b : Backend} {e : Engine}
    (he : h.engine? b = some e) (k : UInt64) (i : RequestId) (q : QueryRequest) (r : QueryResult)
    (b' : Backend) :
    (h.announceResult b e k i q r).announced b' = h.announced b' ++
      if b' = b ∧ b.Supports q then [⟨k, i, .ofResult q r⟩] else [] := by
  have hhome := hh b e he
  have hsame : ∀ f : Counters → Counters,
      ((h.count f).withEngine b (e.announce k i q r).1).announced b' =
        h.announced b' ++ if b' = b ∧ b.Supports q then [⟨k, i, .ofResult q r⟩] else [] := by
    intro f
    unfold announced
    by_cases hb : b' = b
    · subst hb
      rw [engine?_withEngine_self, he]
      by_cases hs : b'.Supports q
      · rw [Engine.announce_of_supports (by rwa [hhome])]
        simp [hs]
      · rw [Engine.announce_of_not_supports (by rwa [hhome])]
        simp [hs]
    · rw [engine?_withEngine_of_ne _ hb]
      simp only [hb, false_and, if_false, List.append_nil]
      rfl
  unfold announceResult
  cases r with
  | ok a => exact hsame id
  | error err => exact hsame _

end Hub

end WalletHub
