import WalletHub.Hub.State
import WalletHub.Reaction.Manager

/-!
# Callbacks

How callbacks of engines are handled. A callback is led to the manager it is about and changes
nothing else; one that leads nowhere is dropped and counted. A query is sent on, or answered with
a failure at once.
-/
namespace WalletHub.Hub

/-- Leads a callback to the record of its manager. -/
def toManager (h : Hub) (manager : ManagerHandle) (react : Manager → Reaction Manager) :
    Handling :=
  match h.tree.manager? manager with
  | none => .refuse h (.resolution (.unknownManager manager))
  | some m => .commit h (react m) .done

/-- Hands the result of a query to its engine. Every query gets one, and what the engine says to
it does not matter. -/
def announceResult (h : Hub) (backend : Backend) (e : Engine) (manager : UInt64) (id : RequestId)
    (request : QueryRequest) (result : QueryResult) : Hub :=
  let h := match result with
    | .error _ => h.count fun c => { c with queriesFailed := c.queriesFailed + 1 }
    | .ok _ => h
  h.withEngine backend (e.announce manager id request result).1

/-- Sends a query on, or answers it with a failure. -/
def onQuery (h : Hub) (backend : Backend) (manager : UInt64) (id : RequestId)
    (request : QueryRequest) : Handling :=
  match h.engine? backend with
  | none => .answer (h.count (·.drop "missing_engine")) .done
  | some e =>
    match h.tree.manager? ⟨backend, manager⟩ with
    | none =>
      let error := ResolutionError.unknownManager ⟨backend, manager⟩
      let h := h.count (·.drop error.bucket)
      .answer (h.announceResult backend e manager id request (.error (.rejected error.message)))
        .done
    | some m =>
      if h.hasClient then
        let h := h.count fun c => { c with queriesIssued := c.queriesIssued + 1 }
        { Handling.answer h .done with queries := [⟨backend, manager, id, request, m.network⟩] }
      else
        .answer (h.announceResult backend e manager id request
          (.error (.unavailable "no query client configured"))) .done

/-- What becomes of a callback. -/
def onCallback (h : Hub) (backend : Backend) : EngineCallback → Handling
  | .manager m event => h.toManager ⟨backend, m⟩ (·.react event)
  | .wallet m w event =>
    h.toManager ⟨backend, m⟩ (·.reactWallet (h.reads backend) ⟨backend, w⟩ event)
  | .transfer m w t event =>
    h.toManager ⟨backend, m⟩ (·.reactTransfer (h.reads backend) ⟨backend, w⟩ ⟨backend, t⟩ event)
  | .queryRequested m id request => h.onQuery backend m id request

/-- What becomes of the answer to a query. -/
def onAnswered (h : Hub) (q : Inquiry) (result : QueryResult) : Hub :=
  match h.engine? q.backend with
  | some e => h.announceResult q.backend e q.manager q.id q.request result
  | none => h

end WalletHub.Hub
