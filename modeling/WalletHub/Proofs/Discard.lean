import WalletHub.Proofs.Run

/-!
# Discarded callbacks

A callback that ends in an error is discarded: nothing is told, nothing is asked, and what is left
of it is a count. The records stay as they are, but for one case. A callback that a transfer was
signed or submitted is looked at in two steps: its hash is written first, and only then its state is
refused. So a hash that comes too late stays behind in a transfer that does not move (`lateHash?`).

* `discarded`: the whole turn of a discarded callback, and when it leaves the records as they were.
* `late_hash_stays`: a transfer that failed takes over a hash afterwards.
-/
namespace WalletHub

namespace Tree

/-- The transfer a callback is about and the hash that it brings too late, if it does. -/
def lateHash? (t : Tree) (b : Backend) : EngineCallback → Option (TransferPath × TransferHash)
  | .transfer m w k c =>
    (t.manager? ⟨b, m⟩).bind fun r =>
      if r.state = .deleted then none
      else
        (r.wallets.find? ⟨b, w⟩).bind fun v =>
          (v.lateHash? ⟨b, k⟩ c).map fun x => (⟨⟨b, m⟩, ⟨b, w⟩, ⟨b, k⟩⟩, x)
  | _ => none

/-- The records with another hash of one transfer. -/
def withHash (t : Tree) (p : TransferPath) (x : TransferHash) : Tree :=
  { t with managers := t.managers.modify p.manager fun m =>
    { m with wallets := m.wallets.modify p.wallet fun w =>
      { w with transfers := w.transfers.modify p.transfer fun u => u.setHash x } } }

/-- The records once a callback was discarded. -/
def afterDiscard (t : Tree) (b : Backend) (c : EngineCallback) : Tree :=
  match t.lateHash? b c with
  | some (p, x) => t.withHash p x
  | none => t

theorem transfer?_withHash {t : Tree} {p : TransferPath} {u : Transfer} (x : TransferHash)
    (hu : t.transfer? p = some u) : (t.withHash p x).transfer? p = some (u.setHash x) := by
  simp only [transfer?, wallet?, TransferPath.parent, Option.bind_eq_some_iff] at hu
  obtain ⟨w, ⟨m, hm, hw⟩, hu⟩ := hu
  have hm' : t.managers.find? p.manager = some m := hm
  simp only [transfer?, wallet?, manager?, withHash, TransferPath.parent, Registry.find?_modify,
    if_true, hm', hw, hu, Option.map_some, Option.bind_some]

/-- Writing the hash that is there changes nothing. -/
theorem withHash_self {t : Tree} {p : TransferPath} {u : Transfer} {x : TransferHash}
    (hu : t.transfer? p = some u) (hx : u.hash = some x) : t.withHash p x = t := by
  simp only [transfer?, wallet?, TransferPath.parent, Option.bind_eq_some_iff] at hu
  obtain ⟨w, ⟨m, hm, hw⟩, hu⟩ := hu
  have hm' : t.managers.find? p.manager = some m := hm
  have hsame : u.setHash x = u := by simp [Transfer.setHash, ← hx]
  simp only [withHash, Registry.modify_congr hm', Registry.modify_congr hw,
    Registry.modify_congr hu, hsame, Registry.modify_const_self hu, Registry.modify_const_self hw,
    Registry.modify_const_self hm']

theorem transfer?_of_lateHash? {t : Tree} {b : Backend} {c : EngineCallback} {p : TransferPath}
    {x : TransferHash} (h : t.lateHash? b c = some (p, x)) : ∃ u, t.transfer? p = some u := by
  cases c with
  | manager m event | wallet m w event | queryRequested m i q => cases h
  | transfer m w k c =>
    simp only [lateHash?, Option.bind_eq_some_iff] at h
    obtain ⟨r, hr, h⟩ := h
    split at h
    · cases h
    · obtain ⟨v, hv, h⟩ := Option.bind_eq_some_iff.1 h
      obtain ⟨y, hy, h⟩ := Option.map_eq_some_iff.1 h
      cases h
      obtain ⟨u, hu⟩ := Wallet.find?_of_lateHash? hy
      refine ⟨u, ?_⟩
      simp only [transfer?, wallet?, TransferPath.parent, hr, hv, hu, Option.bind_some]

/-- A discarded callback leaves the records as they were unless it brings a hash, too late, that is
not there yet. -/
theorem afterDiscard_eq_iff (t : Tree) (b : Backend) (c : EngineCallback) :
    t.afterDiscard b c = t ↔
      ∀ p x, t.lateHash? b c = some (p, x) → (t.transfer? p).bind (·.hash) = some x := by
  unfold afterDiscard
  cases h : t.lateHash? b c with
  | none => simp
  | some q =>
    obtain ⟨p, x⟩ := q
    obtain ⟨u, hu⟩ := transfer?_of_lateHash? h
    simp only [Option.some.injEq, Prod.mk.injEq]
    constructor
    · rintro heq _ _ ⟨rfl, rfl⟩
      have hset := transfer?_withHash x hu
      rw [heq] at hset
      rw [hset]
      rfl
    · intro hall
      have hx := hall p x ⟨rfl, rfl⟩
      rw [hu] at hx
      exact withHash_self hu hx

/-- What a manager keeps of a discarded callback about a transfer is what the records keep. -/
theorem put_afterDiscard {t : Tree} {b : Backend} {m : Manager} {k w u : UInt64}
    (place : m.handle = ⟨b, k⟩) (known : t.manager? ⟨b, k⟩ = some m) (c : TransferCallback) :
    t.put (m.afterDiscard ⟨b, w⟩ ⟨b, u⟩ c) = t.afterDiscard b (.transfer k w u c) := by
  have hm : t.managers.find? ⟨b, k⟩ = some m := known
  have hself : t.put m = t := put_self (place ▸ known)
  unfold Manager.afterDiscard afterDiscard lateHash?
  simp only [known, Option.bind_some]
  by_cases hd : m.state = .deleted
  · simp only [hd, if_true]
    exact hself
  · simp only [hd, if_false]
    cases hw : m.wallets.find? ⟨b, w⟩ with
    | none =>
      simp only [Option.bind_none, Registry.modify_none _ hw]
      exact hself
    | some v =>
      simp only [Option.bind_some, Registry.modify_congr hw, Wallet.afterDiscard]
      cases hx : v.lateHash? ⟨b, u⟩ c with
      | none =>
        simp only [Option.map_none, Registry.modify_const_self hw]
        exact hself
      | some x =>
        simp only [Option.map_some, put, withHash, place, Registry.modify_congr hm,
          Registry.modify_congr hw]

end Tree

namespace Hub

open Handling

/-- What is left of a callback to a manager that was discarded: a manager that leaves `a` leaves the
records with `a` in its place. -/
theorem toManager_discarded {h : Hub} {k : ManagerHandle} {f : Manager → Reaction Manager}
    {t : Tree} {e : HubError} (hd : (h.toManager k f).result = .error (.error e))
    (left : ∀ m, h.tree.manager? k = some m → (f m).fault = some (.error e) →
      ∃ a, (f m).Leaves a ∧ h.tree.put a = t)
    (lost : h.tree.manager? k = none → h.tree = t) :
    h.toManager k f = ⟨{ h with tree := t }, [], [], [], .error (.error e)⟩ := by
  unfold toManager at hd ⊢
  split at hd
  · rename_i hk
    cases hd
    simp only [← lost hk]
    rfl
  · rename_i m hk
    have hfault : (f m).fault = some (.error e) := by
      simp only [commit] at hd
      split at hd
      · cases hd
      · rename_i hf; cases hd; exact hf
    obtain ⟨a, leaves, rfl⟩ := left m hk hfault
    obtain ⟨e', he', hf⟩ := leaves.error hfault
    cases he'
    simp only [hf]
    rfl

/-- What is left of a discarded callback. -/
theorem onCallback_discarded {h : Hub} (hs : h.tree.Sound) {b : Backend} {c : EngineCallback}
    {e : HubError} (hd : (h.onCallback b c).result = .error (.error e)) :
    h.onCallback b c =
      ⟨{ h with tree := h.tree.afterDiscard b c }, [], [], [], .error (.error e)⟩ := by
  have same : ∀ {k m}, h.tree.manager? k = some m → h.tree.put m = h.tree :=
    fun hk => Tree.put_self (hs.place hk ▸ hk)
  cases c with
  | manager k event =>
    refine toManager_discarded hd (fun m hk hf => ⟨m, ?_, same hk⟩) fun _ => rfl
    rcases m.leaves_react event with leaves | ⟨height, hr⟩
    · exact leaves
    · rw [hr] at hf; cases hf
  | wallet k w event =>
    exact toManager_discarded hd
      (fun m hk _ => ⟨m, m.leaves_reactWallet _ _ event, same hk⟩) fun _ => rfl
  | transfer k w u event =>
    refine toManager_discarded hd (fun m hk _ => ⟨_, m.leaves_reactTransfer _ _ _ event,
      Tree.put_afterDiscard (hs.place hk) hk event⟩) fun hk => ?_
    simp only [Tree.afterDiscard, Tree.lateHash?, hk, Option.bind_none]
  | queryRequested k i q =>
    rw [show (h.onCallback b (.queryRequested k i q)).result = .ok .done from
      (silent_onQuery h b k i q).2.2] at hd
    cases hd

/-- Counting does not change how a callback ends. -/
theorem result_onCallback_count (h : Hub) (f : Counters → Counters) (b : Backend)
    (c : EngineCallback) :
    ((h.count f).onCallback b c).result = (h.onCallback b c).result := by
  have led : ∀ k (g : Manager → Reaction Manager),
      ((h.count f).toManager k g).result = (h.toManager k g).result := by
    intro k g
    unfold toManager
    rw [show (h.count f).tree.manager? k = h.tree.manager? k from rfl]
    cases h.tree.manager? k <;> rfl
  cases c with
  | manager k event => exact led _ _
  | wallet k w event => exact led _ _
  | transfer k w u event => exact led _ _
  | queryRequested k i q =>
    exact (silent_onQuery (h.count f) b k i q).2.2.trans (silent_onQuery h b k i q).2.2.symm

end Hub

namespace Session

/-- **Discarded callbacks.** In every run, a callback that ends in an error makes a turn that tells
nothing, asks nothing and answers nobody. Of the hub, the counters change, and the records are as
they were unless the callback brings a hash that its transfer does not have and that comes too late:
then that hash, and nothing else, is written. -/
theorem discarded {s : Session} (hs : s.Reachable) {b : Backend} {c : EngineCallback} {e : HubError}
    (hd : (s.hub.onCallback b c).result = .error (.error e)) :
    s.hub.process (.callback b c) =
        ⟨{ s.hub with
            tree := s.hub.tree.afterDiscard b c
            counters := Counters.discard { s.hub.counters with
              commands := s.hub.counters.commands + 1
              callbacks := s.hub.counters.callbacks + 1 } e }, [], [], none, [], .running⟩ ∧
      (s.hub.tree.afterDiscard b c = s.hub.tree ↔
        ∀ p x, s.hub.tree.lateHash? b c = some (p, x) →
          (s.hub.tree.transfer? p).bind (·.hash) = some x) := by
  refine ⟨?_, Tree.afterDiscard_eq_iff ..⟩
  let counted := (s.hub.count fun c => { c with commands := c.commands + 1 }).count
    fun c => { c with callbacks := c.callbacks + 1 }
  have hresult : (counted.onCallback b c).result = .error (.error e) := by
    rw [Hub.result_onCallback_count, Hub.result_onCallback_count, hd]
  have hleft := Hub.onCallback_discarded (h := counted) hs.sound hresult
  change Hub.concludeCallback s.hub (counted.onCallback b c) = _
  rw [hleft]
  rfl

/-! ## A hash that came too late -/

/-- One manager with its wallet, and a transfer in it that failed. -/
def failedTransfer : Session :=
  (opened true false none (some false)).takes
    [.request (.createManager ⟨⟨"dave", 0⟩, .ethereum true, .apiOnly, "/tmp/dave"⟩),
      .callback .account (.transfer 0x2000 0x2001 0x6000
        (.created ⟨none, none, "1000", .sent, none, none⟩)),
      .callback .account (.transfer 0x2000 0x2001 0x6000 (.errored ⟨"nonce too low", none⟩))]

/-- The same transfer was submitted, says its engine afterwards. -/
def lateSubmission : EngineCallback :=
  .transfer 0x2000 0x2001 0x6000 (.submitted (some (List.replicate 32 7)))

theorem refused_lateSubmission :
    (failedTransfer.hub.onCallback .account lateSubmission).result =
      .error (.error (.transition ⟨"transfer account:0x2000/account:0x2001/account:0x6000",
        "failed(nonce_too_low)", "submitted"⟩)) := by
  decide +kernel

/-- The turn of the late callback, and the records after it. -/
theorem discarded_lateSubmission :
    (failedTransfer.hub.process (.callback .account lateSubmission)).hub.tree =
        failedTransfer.hub.tree.afterDiscard .account lateSubmission ∧
      failedTransfer.hub.tree.afterDiscard .account lateSubmission ≠ failedTransfer.hub.tree :=
  ⟨congrArg (·.hub.tree) (discarded ((Reachable.opened ..).takes _) refused_lateSubmission).1,
    by decide +kernel⟩

/-- Discarded callbacks do not always leave the records as they were. -/
theorem late_hash_stays :
    ¬∀ s : Session, s.Reachable → ∀ b c e,
      (s.hub.onCallback b c).result = .error (.error e) →
        (s.hub.process (.callback b c)).hub.tree = s.hub.tree := by
  intro h
  have hsame := h failedTransfer ((Reachable.opened ..).takes _) .account lateSubmission _
    refused_lateSubmission
  exact absurd hsame (by decide +kernel)

end Session
end WalletHub
