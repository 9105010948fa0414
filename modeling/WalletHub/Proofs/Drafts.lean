import WalletHub.Proofs.Locality
import WalletHub.Proofs.Refusal
import WalletHub.Proofs.Reports

/-!
# New transfers

A request for a transfer is taken apart into what an engine understands, texts and octets, and the
transfer is put together again from what the engine returns. Nothing is lost on the way: the record
has the target, the amount and the fee basis of the request. Besides it only the balance of its
wallet may be another one afterwards, because the engine is asked for it.

* `Wallet.value_admitTransfer_requested`: what becomes of the wallet.
* `Session.transfer_drafted`: what becomes of the request.
-/
namespace WalletHub

/-- An address that was read for a backend, from a text or from octets. -/
def Address.ReadFor (side : Backend) (a : Address) : Prop :=
  (∃ raw, parse side raw = .ok a) ∨ ∃ raw, decode side raw = .ok a

theorem Address.ReadFor.decode_rawBytes {side : Backend} {a : Address} (read : a.ReadFor side) :
    decode side a.rawBytes = .ok a := by
  rcases read with ⟨raw, parsed⟩ | ⟨raw, decoded⟩
  · exact decode_of_parse parsed
  · exact decode_of_decode decoded

/-- An engine that does not fail makes the transfer under its next number, and still says the same
of all wallets. -/
theorem Engine.result_createTransfer {e : Engine} (willing : e.failNext = none) (m w : UInt64)
    (r : TransferRequest) :
    (e.createTransfer m w r).result = .ok (e.nextHandle, r.attributes) ∧
      (e.createTransfer m w r).engine.reads = e.reads := by
  simp only [createTransfer, command, take, willing]
  exact ⟨rfl, rfl⟩

/-- A transfer that is read back under a new handle is added, and the balance is asked for. -/
theorem Wallet.value_admitTransfer_requested (reads : EngineReads) {w : Wallet}
    {h : TransferHandle} {raw : RawTransfer} {t : Transfer} (back : w.decodeTransfer h raw = .ok t)
    (unused : w.transfers.find? h = none) :
    (w.admitTransfer reads h raw).value =
      { w with
        transfers := (w.transfers.findOrCreate h t).1
        balance := (w.lastBalance? (reads.balanceReport w.handle)).getD w.balance } := by
  simp only [admitTransfer, back, Registry.findOrCreate_of_find?_none t unused, Reaction.andThen,
    Reaction.announce, value_refreshBalance]
  rw [lastBalance?_congr (w := w) rfl rfl]
  rfl

/-- A wallet that is put into its manager is there. -/
theorem Tree.wallet?_put_modify {t : Tree} {p : WalletPath} {m : Manager} {w w' : Wallet}
    (known : t.manager? p.manager = some m) (place : m.handle = p.manager)
    (held : m.wallets.find? p.wallet = some w) :
    (t.put { m with wallets := m.wallets.modify p.wallet fun _ => w' }).wallet? p = some w' := by
  rw [wallet?_put (m := m) (place.symm ▸ known) (by rfl), if_pos place]
  exact Registry.modify_find?_self w' held

namespace Hub

open Handling

variable {h : Hub} {p : WalletPath} {target : Address} {amount : Amount} {given : Option FeeBasis}
  {basis : FeeBasis} {e : Engine} {m : Manager} {w : Wallet}

/-- A request for a transfer that neither the records nor the engine refuse ends in the wallet, with
what the engine made of it. -/
theorem createTransfer_of_willing (engine : h.engine? p.manager.backend = some e)
    (willing : e.failNext = none) (home : target.backend = p.manager.backend)
    (known : h.tree.manager? p.manager = some m) (live : m.state ≠ .deleted)
    (held : m.wallets.find? p.wallet = some w)
    (currency : sameCode amount.currency w.currency.code = true)
    (paid : given.or w.defaultFeeBasis = some basis) (side : basis.backend = p.manager.backend) :
    ∃ g : Hub, g.tree = h.tree ∧ h.createTransfer p target amount given =
      .commit g ((w.admitTransfer e.reads ⟨p.manager.backend, e.nextHandle⟩
          (TransferRequest.attributes ⟨target, amount, basis⟩)).map
        fun w' => { m with wallets := m.wallets.modify p.wallet fun _ => w' })
        (.transfer (p.child ⟨p.manager.backend, e.nextHandle⟩)) := by
  obtain ⟨made, reads⟩ := Engine.result_createTransfer willing p.manager.raw p.wallet.raw
    ⟨target, amount, basis⟩
  refine ⟨h.withEngine p.manager.backend (e.createTransfer p.manager.raw p.wallet.raw
    ⟨target, amount, basis⟩).engine, tree_withEngine .., ?_⟩
  simp only [createTransfer, requireEngine, engine, home, requireLive, known, live, held,
    feeBasisFor, currency, paid, side, not_true_eq_false, ne_eq, if_true, if_false, issue, made,
    (createTransfer_of_ok made).2.1, Manager.withWallet, Hub.reads, engine?_withEngine_self, reads,
    List.map_nil, List.nil_append]

/-- So the transfer is put down there, and the answer is its path. -/
theorem process_createTransfer (hn : h.tree.Normal)
    (engine : h.engine? p.manager.backend = some e) (willing : e.failNext = none)
    (known : h.tree.manager? p.manager = some m) (live : m.state ≠ .deleted)
    (held : m.wallets.find? p.wallet = some w) (read : target.ReadFor p.manager.backend)
    (currency : sameCode amount.currency w.currency.code = true)
    (paid : given.or w.defaultFeeBasis = some basis) (side : basis.backend = p.manager.backend)
    (unused : w.transfers.find? ⟨p.manager.backend, e.nextHandle⟩ = none) :
    let k : TransferHandle := ⟨p.manager.backend, e.nextHandle⟩
    let x := TransferRequest.draft ⟨target, amount, basis⟩ w k target
    let t := h.process (.request (.createTransfer p target amount given))
    t.answer = some (.ok (.transfer (p.child k))) ∧ t.life = .running ∧ t.raised = [] ∧
      t.hub.tree = h.tree.put { m with wallets := m.wallets.modify p.wallet fun _ =>
        { w with
          transfers := (w.transfers.findOrCreate k x).1
          balance := (w.lastBalance? (e.reads.balanceReport p.wallet)).getD w.balance } } := by
  intro k x t
  have order := Registry.All.find? hn known
  have wallet := order.wallets.find? held
  have home : w.backend = p.manager.backend := by rw [wallet.side, order.key]
  have again := read.decode_rawBytes
  have back : w.decodeTransfer k (TransferRequest.attributes ⟨target, amount, basis⟩) = .ok x := by
    rw [Wallet.decode_requested (side.trans home.symm) k, home, again]
    rfl
  have turn : t = concludeRequest h _ := process_request ..
  obtain ⟨g, tree, handled⟩ := createTransfer_of_willing (h := h.count .request) engine willing
    (Address.backend_of_decode again) known live held currency paid side
  rw [onRequest, handled] at turn
  generalize reaction : (w.admitTransfer e.reads ⟨p.manager.backend, e.nextHandle⟩
      (TransferRequest.attributes ⟨target, amount, basis⟩)).map
        (fun w' => { m with wallets := m.wallets.modify p.wallet fun _ => w' }) = r at turn
  have done : r.fault = none := by
    simp only [← reaction, Reaction.map]
    exact Wallet.fault_admitTransfer e.reads back
  obtain ⟨answer, life, raised, left⟩ :=
    concludeRequest_of_ok h (result_commit (g := g) done (.transfer (p.child k)))
  rw [turn]
  refine ⟨answer, life, raised, left.trans ?_⟩
  change g.tree.put r.value = _
  rw [show g.tree = h.tree from tree, ← reaction, Reaction.value_map,
    Wallet.value_admitTransfer_requested _ back unused, wallet.key]

end Hub

namespace Session

/-- **New transfers.** In every run: a request for a transfer from a wallet of a manager that is not
deleted, to a target that was read for the backend, over an amount in the wallet's currency, with a
fee basis of the backend or the wallet's default, is answered with the path of the transfer, if the
engine does not fail and its next number is not in use in the wallet. The record there is what was
asked for. Nothing else is changed but the balance of the wallet, which the engine is asked for. -/
theorem transfer_drafted {s : Session} (hs : s.Reachable) {p : WalletPath} {target : Address}
    {amount : Amount} {given : Option FeeBasis} {basis : FeeBasis} {e : Engine} {m : Manager}
    {w : Wallet} (engine : s.hub.engine? p.manager.backend = some e) (willing : e.failNext = none)
    (known : s.hub.tree.manager? p.manager = some m) (live : m.state ≠ .deleted)
    (held : m.wallets.find? p.wallet = some w) (read : target.ReadFor p.manager.backend)
    (currency : sameCode amount.currency w.currency.code = true)
    (paid : given.or w.defaultFeeBasis = some basis)
    (side : ∀ b, given = some b → b.backend = p.manager.backend)
    (unused : w.transfers.find? ⟨p.manager.backend, e.nextHandle⟩ = none) :
    let path : TransferPath := p.child ⟨p.manager.backend, e.nextHandle⟩
    let t := s.hub.step (.request (.createTransfer p target amount given))
    t.answer = some (.ok (.transfer path)) ∧ t.life = .running ∧
      ∃ x, t.hub.tree.transfer? path = some x ∧ x.path = path ∧ x.state = .created ∧
        x.direction = .sent ∧ x.source = none ∧ x.hash = none ∧ x.target = some target ∧
        x.amount = .ofBase amount.value w.currency ∧ x.feeBasis = some basis ∧
        x.fee? = some (.ofBase basis.fee w.feeCurrency) ∧
        t.hub.tree = s.hub.tree.put { m with wallets := m.wallets.modify p.wallet fun _ =>
          { w with
            transfers := (w.transfers.findOrCreate path.transfer x).1
            balance := (w.lastBalance? (e.reads.balanceReport p.wallet)).getD w.balance } } := by
  intro path t
  have place : m.handle = p.manager := hs.sound.place known
  have wallet := (Registry.All.find? hs.normal known).wallets.find? held
  have own : w.path = p := ((hs.sound.sound known).place held).trans (by rw [place])
  have side : basis.backend = p.manager.backend := by
    cases given with
    | some b => exact side basis paid
    | none => rw [wallet.feeBasis basis paid, wallet.side, place]
  obtain ⟨answer, life, raised, tree⟩ := Hub.process_createTransfer hs.normal engine willing known
    live held read currency paid side unused
  have turn : t = s.hub.process _ := Hub.step_of_quiet raised
  rw [turn]
  refine ⟨answer, life, TransferRequest.draft ⟨target, amount, basis⟩ w path.transfer target, ?_,
    ?_, rfl, rfl, rfl, rfl, rfl, rfl, rfl, rfl, tree⟩
  · rw [Tree.transfer?, tree, show path.parent = p from rfl,
      Tree.wallet?_put_modify known place held]
    simp [path, WalletPath.child, Registry.find?_findOrCreate, unused]
  · change w.path.child path.transfer = path
    rw [own]
    rfl

/-- A wallet with a default fee basis, whose engine knows of a balance that it has not told. -/
def funded : Session :=
  let rated := opened true false (some true) none
  let made := { rated with hub := rated.hub.adjusted .utxo (.feePerKb 1000) }.take
    (.request (.createManager ⟨⟨"dave", 0⟩, .bitcoin true, .apiOnly, "/tmp/dave"⟩))
  { made with hub := made.hub.adjusted .utxo (.balance 0x1001 (.utxo 70000 0)) }

theorem reachable_funded : funded.Reachable :=
  (((Reachable.opened ..).step (.setting ..)).step (.command _ (by decide +kernel))).step
    (.setting ..)

/-- A payment to a text that can be read, in capitals and without a fee basis. -/
theorem transfer_drafted_funded :
    ∃ x, (funded.hub.step (.request (.createTransfer ⟨⟨.utxo, 0x1000⟩, ⟨.utxo, 0x1001⟩⟩
        (.utxo "bc1qw508d6qejxtdg4y5r3zarvary0c5xw7kv8f3t4") ⟨.ofUInt64 1000, "BTC", 8⟩
        none))).hub.tree.transfer? ⟨⟨.utxo, 0x1000⟩, ⟨.utxo, 0x1001⟩, ⟨.utxo, 0x1002⟩⟩ = some x ∧
      x.target = some (.utxo "bc1qw508d6qejxtdg4y5r3zarvary0c5xw7kv8f3t4") ∧
      x.fee?.map (·.value) = some (.ofUInt64 226) := by
  obtain ⟨e, engine, willing, number⟩ : ∃ e, funded.hub.engine? .utxo = some e ∧
      e.failNext = none ∧ e.nextHandle = 0x1002 := by
    have there : (funded.hub.engine? .utxo).any
      (fun e => e.failNext = none ∧ e.nextHandle = 0x1002) = true := by decide +kernel
    simpa only [Option.any_eq_true, decide_eq_true_eq] using there
  obtain ⟨m, known, live, w, held, currency, basis, unused⟩ : ∃ m,
      funded.hub.tree.manager? ⟨.utxo, 0x1000⟩ = some m ∧ m.state ≠ .deleted ∧
        ∃ w, m.wallets.find? ⟨.utxo, 0x1001⟩ = some w ∧
          sameCode (Amount.mk (.ofUInt64 1000) "BTC" 8).currency w.currency.code = true ∧
          Option.or none w.defaultFeeBasis = some (.utxo 1000 226) ∧
          w.transfers.find? ⟨.utxo, 0x1002⟩ = none := by
    have there : (funded.hub.tree.manager? ⟨.utxo, 0x1000⟩).any (fun m =>
        m.state ≠ .deleted ∧ (m.wallets.find? ⟨.utxo, 0x1001⟩).any fun w =>
          sameCode (Amount.mk (.ofUInt64 1000) "BTC" 8).currency w.currency.code ∧
            Option.or none w.defaultFeeBasis = some (.utxo 1000 226) ∧
            w.transfers.find? ⟨.utxo, 0x1002⟩ = none) = true := by
      decide +kernel
    simpa only [Option.any_eq_true, decide_eq_true_eq] using there
  have read : Address.ReadFor .utxo (.utxo "bc1qw508d6qejxtdg4y5r3zarvary0c5xw7kv8f3t4") :=
    .inl ⟨" bc1qw508d6qejxtdg4y5r3zarvary0c5xw7kv8f3t4\n", by decide +kernel⟩
  obtain ⟨-, -, x, there, -, -, -, -, -, target, -, -, fee, -⟩ :=
    transfer_drafted reachable_funded (p := ⟨⟨.utxo, 0x1000⟩, ⟨.utxo, 0x1001⟩⟩)
      engine willing known live held read currency basis (by simp) (number ▸ unused)
  rw [number] at there
  have price : FeeBasis.fee (.utxo 1000 226) = .ofUInt64 226 := by decide +kernel
  exact ⟨x, there, target, by simp [fee, Amount.ofBase, price]⟩

end Session

end WalletHub
