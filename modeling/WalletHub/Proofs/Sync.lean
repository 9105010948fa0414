import WalletHub.Proofs.Brackets
import WalletHub.Proofs.Conduct
import WalletHub.Proofs.Course
import WalletHub.Proofs.Index

/-!
# Syncs

A sync is told by the change of its manager into the state syncing, at once followed by the word
that it started, by its progress, and by the word that it ended. Everything else is calm (`Calm`).
What a reaction tells of a sync is listed once (`Manager.SyncTold`), and so is what a command tells
(`syncTold_process`): three callbacks speak of syncs, and nothing else does, whatever leads a
manager out of its sync.

* `Paired.append`: changes into syncing and starts stay in pairs.
* `saidState_of_known`: the state of a manager is the one that it was last said to move to.
* `syncStopped_process`: the word that a sync ended.
* `sync_protocol`: syncs in a run.
-/
namespace WalletHub

/-! ## Calm notices -/

/-- Whether a notice belongs to a sync: the change into it, or word of it. -/
def Notice.ofSync : Notice → Bool
  | .manager _ (.changed _ new) => new = .syncing
  | .manager _ n => n.isSync
  | _ => false

/-- Nothing is told of a sync. -/
def Calm (ns : List Notice) : Prop := ∀ n ∈ ns, n.ofSync = false

theorem calm_nil : Calm [] := fun _ hn => by cases hn

theorem calm_cons {n : Notice} {ns : List Notice} (hn : n.ofSync = false) (hs : Calm ns) :
    Calm (n :: ns) := List.forall_mem_cons.2 ⟨hn, hs⟩

theorem calm_append {ns ms : List Notice} (hn : Calm ns) (hm : Calm ms) : Calm (ns ++ ms) :=
  List.forall_mem_append.2 ⟨hn, hm⟩

theorem calm_flatMap {α : Type} {f : α → List Notice} (hf : ∀ a, Calm (f a)) (xs : List α) :
    Calm (xs.flatMap f) := by
  intro n hn
  obtain ⟨a, -, ha⟩ := List.mem_flatMap.1 hn
  exact hf a n ha

theorem calm_moved (k : ManagerHandle) (old : ManagerState) {new : ManagerState}
    (other : new ≠ .syncing) : (Notice.manager k (.changed old new)).ofSync = false :=
  decide_eq_false other

theorem Notice.InWallet.calm {p : WalletPath} {n : Notice} (hn : n.InWallet p) :
    n.ofSync = false := by
  cases n with
  | manager k n => obtain ⟨-, rfl⟩ := hn; rfl
  | hub | wallet | transfer => rfl

/-- What happens to a wallet and its transfers is no sync. -/
theorem Wallet.calm_of_trail {w w' : Wallet} {ns : List Notice}
    (trail : Trail Wallet.Change w ns w') : Calm ns := by
  induction trail with
  | still => exact calm_nil
  | step hc _ ih => exact calm_append (fun n hn => (hc.inWallet n hn).calm) ih

theorem Transfer.calm_retirement (t : Transfer) : Calm t.retirement := by
  have gone : Calm [.transfer t.path .deleted, .wallet t.path.parent (.transferDeleted t.path)] :=
    calm_cons rfl (calm_cons rfl calm_nil)
  unfold retirement
  split
  · exact calm_cons rfl gone
  · exact gone

theorem Wallet.calm_retirement (w : Wallet) : Calm w.retirement := by
  have gone : Calm [.wallet w.path .deleted,
      .manager w.path.manager (.walletDeleted w.path.wallet)] :=
    calm_cons rfl (calm_cons rfl calm_nil)
  refine calm_append (calm_append (calm_flatMap Transfer.calm_retirement _) ?_) gone
  split
  · exact calm_cons rfl calm_nil
  · exact calm_nil

/-! ## Reactions -/

namespace Manager

variable {m : Manager}

theorem calm_retirement (m : Manager) : Calm m.retirement :=
  calm_append (calm_flatMap Wallet.calm_retirement _)
    (calm_cons (calm_moved _ _ (by simp)) (calm_cons rfl (calm_cons rfl calm_nil)))

theorem calm_moveTo (m : Manager) {new : ManagerState} (other : new ≠ .syncing) :
    Calm (m.moveTo new []).notices := by
  unfold moveTo
  split
  · exact calm_nil
  · exact calm_nil
  · exact calm_cons (calm_moved _ _ other) calm_nil

theorem calm_receiveHeight (m : Manager) (height : UInt64) :
    Calm (m.receiveHeight height).notices := by
  unfold receiveHeight
  split
  · exact calm_nil
  · split
    · exact calm_nil
    · rename_i counted
      refine calm_cons rfl fun n hn => ?_
      obtain ⟨t, -, c, rfl⟩ := mem_of_confirmationNotices counted n hn
      rfl

theorem calm_ifLive {r : Reaction Manager} (hr : Calm r.notices) : Calm (m.ifLive r).notices := by
  unfold ifLive
  split
  · exact calm_nil
  · exact hr

theorem calm_withWallet (hm : m.Sound) {h : WalletHandle} {f : Wallet → Reaction Wallet}
    (hf : ∀ w, w.path = ⟨m.handle, h⟩ → w.Sound →
      Trail Wallet.Change w (f w).notices (f w).value) : Calm (m.withWallet h f).notices := by
  unfold withWallet
  split
  · exact calm_nil
  · rename_i w known
    exact Wallet.calm_of_trail (hf w (hm.place known) (hm.sound known))

theorem calm_admitWallet (m : Manager) (reads : EngineReads) (h : WalletHandle) (code : String) :
    Calm (m.admitWallet reads h code).notices := by
  unfold admitWallet
  split
  · exact calm_nil
  · split
    · exact calm_nil
    · exact calm_cons rfl (calm_cons rfl (Wallet.calm_of_trail (trail_newWallet m reads h _)))

theorem calm_reactWallet (reads : EngineReads) (hm : m.Sound) (h : WalletHandle)
    (c : WalletCallback) : Calm (m.reactWallet reads h c).notices := by
  refine calm_ifLive ?_
  cases c with
  | created code => exact calm_admitWallet m reads h code
  | balanceUpdated raw =>
    refine calm_withWallet hm fun w _ _ => ?_
    split
    · exact .still w
    · rename_i read; exact Wallet.trail_receiveBalance read
  | defaultFeeBasisUpdated raw =>
    refine calm_withWallet hm fun w _ _ => ?_
    split
    · exact .still w
    · rename_i read; exact Wallet.trail_receiveFeeBasis read
  | deleted =>
    simp only [dropWallet]
    split
    · exact calm_nil
    · exact Wallet.calm_retirement _

theorem calm_reactTransfer (reads : EngineReads) (hm : m.Sound) (h : WalletHandle)
    {t : TransferHandle} (side : t.backend = m.handle.backend) (c : TransferCallback) :
    Calm (m.reactTransfer reads h t c).notices :=
  calm_ifLive (calm_withWallet hm fun _ place hw =>
    Wallet.trail_reactTransfer reads hw (by rw [place]; exact side) c)

/-- What a manager tells when its engine stops a sync. -/
def ending (m : Manager) (r : SyncStopReason) : List Notice :=
  (if m.state = .syncing then [.manager m.handle (.changed .syncing .connected)] else [])
  ++ [.manager m.handle (.syncEnded r)]

/-- What a callback makes a manager tell of a sync. -/
inductive SyncTold (m : Manager) : EngineCallback → List Notice → Prop
  | calm {c : EngineCallback} {ns : List Notice} (calm : Calm ns) : SyncTold m c ns
  | started {i : UInt64} : SyncTold m (.manager i .syncStarted)
      [.manager m.handle (.changed m.state .syncing), .manager m.handle .syncStarted]
  | progress {i : UInt64} {percent : Single} {timestamp : Option UInt64}
      (syncing : m.state = .syncing) : SyncTold m (.manager i (.syncProgress percent timestamp))
        [.manager m.handle (.syncProgress percent.clampPercent timestamp)]
  | ended {i : UInt64} {r : SyncStopReason} (live : m.state ≠ .deleted) :
      SyncTold m (.manager i (.syncStopped r)) (m.ending r)

/-- The state of a manager once its engine stopped a sync. -/
def rested (m : Manager) : ManagerState := if m.state = .syncing then .connected else m.state

/-- A manager that is not deleted tells that the sync ended, in whatever state it is. -/
theorem react_syncStopped (live : m.state ≠ .deleted) (r : SyncStopReason) :
    m.react (.syncStopped r) = .announce { m with state := m.rested } (m.ending r) := by
  simp only [react, ifLive, if_neg live, reactLive, ending, rested]
  by_cases syncing : m.state = .syncing
  · have moved : m.transition .connected = .ok (some { m with state := .connected }) := by
      simp [transition, syncing, ManagerState.verdict]
    simp only [syncing, if_true, moveTo, moved]
    rfl
  · simp only [syncing, if_false]
    rfl

theorem syncTold_react (m : Manager) (i : UInt64) (c : ManagerCallback) :
    m.SyncTold (.manager i c) (m.react c).notices := by
  by_cases deleted : m.state = .deleted
  · have still : (m.react c).notices = [] :=
      (still_reaction .nothing deleted m.handle.backend (.manager i c)).2
    exact still ▸ .calm calm_nil
  cases c with
  | deleted =>
    simp only [react, if_neg deleted]
    exact .calm (calm_retirement m)
  | created => exact .calm (calm_ifLive calm_nil)
  | connected => exact .calm (calm_ifLive (calm_moveTo m (by simp)))
  | disconnected reason => exact .calm (calm_ifLive (calm_moveTo m (by simp)))
  | syncStarted =>
    simp only [react, ifLive, if_neg deleted, reactLive, moveTo]
    split
    · exact .calm calm_nil
    · exact .calm calm_nil
    · exact .started
  | syncProgress percent timestamp =>
    simp only [react, ifLive, if_neg deleted, reactLive]
    split
    · rename_i syncing; exact .progress syncing
    · exact .calm calm_nil
  | syncStopped r =>
    rw [react_syncStopped deleted]
    exact .ended deleted
  | blockHeightUpdated height => exact .calm (calm_ifLive (calm_receiveHeight m height))

theorem syncTold_reaction (reads : EngineReads) (hm : m.Sound) {b : Backend} {c : EngineCallback}
    (place : m.handle = c.addressee b) : m.SyncTold c (c.reaction reads b m).notices := by
  cases c with
  | manager i event => exact syncTold_react m i event
  | wallet i w event => exact .calm (calm_reactWallet reads hm _ event)
  | transfer i w t event =>
    exact .calm (calm_reactTransfer reads hm _ (by rw [place]; rfl) event)
  | queryRequested => exact .calm calm_nil

theorem Complies.calm {x : Reaction Manager} (hm : m.Sound) (hx : m.Complies reads x) :
    Calm x.notices := by
  cases hx with
  | admitsWallet code => exact calm_admitWallet m reads _ code
  | disconnects => exact calm_moveTo m (by simp)
  | admitsTransfer w raw side =>
    exact calm_withWallet hm fun _ place _ =>
      Wallet.trail_admitTransfer reads _ raw (by rw [place]; exact side)

end Manager

/-! ## Commands -/

namespace Hub

open Handling

variable {h : Hub} {c : Command} {t : Tree} {ns : List Notice}

/-- What a command may tell of syncs: nothing, unless it is one of three callbacks for a manager
that is known. -/
inductive SyncTold (h : Hub) : Command → List Notice → Prop
  | calm {c : Command} {ns : List Notice} (calm : Calm ns) : SyncTold h c ns
  | callback {b : Backend} {c : EngineCallback} {m : Manager} {ns : List Notice}
      (known : h.tree.manager? (c.addressee b) = some m) (place : m.handle = c.addressee b)
      (told : m.SyncTold c ns) : SyncTold h (.callback b c) ns

theorem calm_heeds {e : Engine} {b : Backend} {i : Issued} {t' : Tree} {unread : Nat}
    (ht : t.Sound) (heeds : t.Heeds e b i t' ns unread) : Calm ns := by
  cases heeds with
  | refused | relayed | modeSet => exact calm_nil
  | complied _ known _ _ complies | reissued known _ complies =>
    exact complies.calm (ht.sound known)
  | @founded p m x index unknown new complies =>
    have bare : m.wallets = .empty := new ▸ rfl
    exact calm_append (calm_cons rfl (calm_cons rfl calm_nil))
      (complies.calm (Manager.sound_of_bare bare))

theorem calm_request (hs : h.tree.Sound) (q : Request) :
    Calm (h.process (.request q)).notices := by
  obtain ⟨f, ns, conduct, relayed⟩ := conduct_request hs q
  suffices calm : Calm ns from fun n hn => calm n (relayed.told n hn)
  cases conduct with
  | idle => exact calm_nil
  | asked _ _ heeds => exact calm_heeds hs heeds

/-- A turn of a callback tells what the handling tells, or the hub halts. -/
theorem notices_concludeCallback (h : Hub) (r : Handling) :
    (concludeCallback h r).notices = r.notices ∨ (concludeCallback h r).notices = [] := by
  unfold concludeCallback
  split
  · exact .inl (notices_conclude ..)
  · split
    · exact .inr rfl
    · split <;> exact .inl (notices_conclude ..)

theorem syncTold_callback (hs : h.tree.Sound) (b : Backend) (c : EngineCallback) :
    h.SyncTold (.callback b c) (h.process (.callback b c)).notices := by
  rw [process_callback]
  rcases notices_concludeCallback h ((h.count .callback).onCallback b c) with told | told <;>
    rw [told]
  · cases plain : c.isQuery with
    | true =>
      cases c with
      | queryRequested i id q => exact .calm ((silent_onQuery ..).1 ▸ calm_nil)
      | _ => cases plain
    | false =>
      rw [onCallback_eq plain, toManager]
      split
      · exact .calm calm_nil
      · rename_i m known
        have place := hs.place known
        exact .callback known place (Manager.syncTold_reaction _ (hs.sound known) place)
  · exact .calm calm_nil

/-- **Commands.** What a command tells of syncs. -/
theorem syncTold_process (hs : h.tree.Sound) (c : Command) :
    h.SyncTold c (h.process c).notices := by
  cases c with
  | callback b c => exact syncTold_callback hs b c
  | request q => exact .calm (calm_request hs q)
  | answered | register | remove | flush => exact .calm calm_nil
  | shutdown =>
    refine .calm ?_
    have told : (h.process .shutdown).notices =
        (h.tree.managers.drain.2.flatMap fun m => parting m.2) ++ [.hub .deleted] := by
      simp only [Turn.notices, process, List.filterMap_append]
      exact (List.append_nil _).trans (notices_numbered ..)
    rw [told]
    refine calm_append (calm_flatMap (fun m => ?_) _) (calm_cons rfl calm_nil)
    unfold parting
    split
    · exact calm_nil
    · exact Manager.calm_retirement m.2

/-- **Ends.** Whenever an engine stops the sync of a manager that is not deleted, in whatever state
it is, one notice says so with the reason; the manager is connected then if it was syncing, which is
told before, and else stays as it was. -/
theorem syncStopped_process {b : Backend} {i : UInt64} {m : Manager} (hs : h.tree.Sound)
    (known : h.tree.manager? ⟨b, i⟩ = some m) (live : m.state ≠ .deleted) (r : SyncStopReason) :
    (h.process (.callback b (.manager i (.syncStopped r)))).notices = m.ending r ∧
      (h.process (.callback b (.manager i (.syncStopped r)))).hub.tree.manager? ⟨b, i⟩ =
        some { m with state := m.rested } ∧
      (h.process (.callback b (.manager i (.syncStopped r)))).life = .running := by
  have place := hs.place known
  have handled : (h.count .callback).onCallback b (.manager i (.syncStopped r)) =
      commit (h.count .callback) (.announce { m with state := m.rested } (m.ending r)) .done := by
    have same : (h.count .callback).tree.manager? ⟨b, i⟩ = some m := known
    simp only [onCallback, toManager, same, Manager.react_syncStopped live]
  rw [process_callback, handled]
  refine ⟨notices_conclude .., ?_, rfl⟩
  have here : h.tree.manager? m.handle = some m := place ▸ known
  have same : ({ m with state := m.rested } : Manager).handle = m.handle := rfl
  have put := Tree.manager?_put here same ⟨b, i⟩
  rw [if_pos place] at put
  exact put

end Hub

/-! ## Pairs -/

/-- Whether a notice is half of a pair: a change into syncing, or the word that a sync started. -/
def Notice.ofPair : Notice → Bool
  | .manager _ (.changed _ new) => new = .syncing
  | .manager _ .syncStarted => true
  | _ => false

/-- Changes into syncing and starts of syncs come in pairs, one right after the other. -/
structure Paired (ns : List Notice) : Prop where
  started : ∀ before k old after, ns = before ++ .manager k (.changed old .syncing) :: after →
    ∃ rest, after = .manager k .syncStarted :: rest
  entered : ∀ before k after, ns = before ++ .manager k .syncStarted :: after →
    ∃ first old, before = first ++ [.manager k (.changed old .syncing)]

theorem paired_of_none {ns : List Notice} (none : ∀ n ∈ ns, n.ofPair = false) : Paired ns := by
  refine ⟨fun before k old after split => ?_, fun before k after split => ?_⟩
  · cases none (.manager k (.changed old .syncing)) (by simp [split])
  · cases none (.manager k .syncStarted) (by simp [split])

theorem Notice.ofPair_of_calm {n : Notice} (hn : n.ofSync = false) : n.ofPair = false := by
  cases n with
  | manager k n => cases n <;> first | exact hn | rfl
  | hub | wallet | transfer => rfl

theorem Calm.paired {ns : List Notice} (calm : Calm ns) : Paired ns :=
  paired_of_none fun n hn => Notice.ofPair_of_calm (calm n hn)

/-- A pair. -/
theorem paired_started (k : ManagerHandle) (old : ManagerState) :
    Paired [.manager k (.changed old .syncing), .manager k .syncStarted] := by
  refine ⟨fun before j old' after split => ?_, fun before j after split => ?_⟩
  · rcases before with _ | ⟨_, _ | ⟨_, before⟩⟩ <;> simp at split
    obtain ⟨⟨rfl, -⟩, rfl⟩ := split
    exact ⟨[], rfl⟩
  · rcases before with _ | ⟨_, _ | ⟨_, before⟩⟩ <;> simp at split
    obtain ⟨rfl, rfl, -⟩ := split
    exact ⟨[], old, rfl⟩

theorem Paired.append {ns ms : List Notice} (hn : Paired ns) (hm : Paired ms) :
    Paired (ns ++ ms) := by
  refine ⟨fun before k old after split => ?_, fun before k after split => ?_⟩
  · rcases split_of_append split with ⟨rest, here⟩ | ⟨mid, -, there⟩
    · obtain ⟨more, rfl⟩ := hn.started before k old rest here
      rw [here, List.append_assoc, List.append_cancel_left_eq, List.cons_append,
        List.cons.injEq] at split
      exact ⟨more ++ ms, split.2.symm⟩
    · exact hm.started mid k old after there
  · rcases split_of_append split with ⟨rest, here⟩ | ⟨mid, rfl, there⟩
    · exact hn.entered before k rest here
    · obtain ⟨first, old, rfl⟩ := hm.entered mid k after there
      exact ⟨ns ++ first, old, (List.append_assoc ..).symm⟩

theorem Manager.paired_ending (m : Manager) (r : SyncStopReason) : Paired (m.ending r) := by
  refine paired_of_none fun n hn => ?_
  unfold ending at hn
  split at hn
  · simp only [List.cons_append, List.nil_append, List.mem_cons, List.not_mem_nil, or_false] at hn
    rcases hn with rfl | rfl <;> rfl
  · cases List.mem_singleton.1 hn
    rfl

theorem Hub.SyncTold.paired {h : Hub} {c : Command} {ns : List Notice} (told : h.SyncTold c ns) :
    Paired ns := by
  cases told with
  | calm calm => exact calm.paired
  | callback _ _ told =>
    cases told with
    | calm calm => exact calm.paired
    | started => exact paired_started ..
    | progress => exact paired_of_none fun n hn => by cases List.mem_singleton.1 hn; rfl
    | ended => exact Manager.paired_ending ..

/-! ## States as told -/

/-- The state after a mark, if `s` was the one before it. -/
def Mark.leads {σ : Type} (s : Option σ) : Mark σ → Option σ
  | .moves _ new => some new
  | _ => s

/-- The state that a record was last said to move to. -/
def lastMove? {σ : Type} (ms : List (Mark σ)) : Option σ := ms.foldl Mark.leads none

/-- The state that a manager was last said to move to. -/
def saidState? (k : ManagerHandle) (ns : List Notice) : Option ManagerState :=
  lastMove? (managerMarks k ns)

/-- Progress is told only of managers that were last said to be syncing. -/
def Progressing (ns : List Notice) : Prop :=
  ∀ before k percent timestamp after,
    ns = before ++ .manager k (.syncProgress percent timestamp) :: after →
      saidState? k before = some .syncing

/-- The last move of a course, if there is one, is the last of all. -/
theorem lastMove?_of_courses {σ : Type} {ms : List (Mark σ)} {c : List (σ × σ)}
    {cs : List (List (σ × σ))} (hc : courses ms = c :: cs) (moved : c ≠ []) :
    lastMove? ms = c.getLast?.map Prod.snd := by
  suffices kept : ∀ (ms : List (Mark σ)) (ds : List (List (σ × σ))) (s : Option σ),
      (∀ d rest, ds = d :: rest → d ≠ [] → s = d.getLast?.map Prod.snd) →
      ∀ d rest, ms.foldl recorded ds = d :: rest → d ≠ [] →
        ms.foldl Mark.leads s = d.getLast?.map Prod.snd from
    kept ms [] none (fun d rest hd => by cases hd) c cs hc moved
  intro ms
  induction ms with
  | nil => exact fun ds s start => start
  | cons a ms ih =>
    intro ds s start
    refine ih _ _ fun d rest hd hne => ?_
    cases a with
    | opens =>
      cases hd
      exact absurd rfl hne
    | moves x y =>
      cases ds with
      | nil => cases hd; rfl
      | cons d' ds => cases hd; simp [Mark.leads]
    | speaks | closes => exact start d rest hd hne

/-- A path that moves ends where its last move leads. -/
theorem Path.getLast {σ : Type} {S : σ → σ → Prop} {a b : σ} {steps : List (σ × σ)}
    (path : Path S a steps b) : b = (steps.getLast?.map Prod.snd).getD a := by
  induction steps generalizing a with
  | nil => exact path.symm
  | cons x steps ih =>
    obtain ⟨-, -, rest⟩ := path
    rw [ih rest]
    cases steps with
    | nil => rfl
    | cons y steps => simp [List.getLast?_cons]

/-! ## Runs -/

namespace Hub

variable {h : Hub} {c : Command} {ns : List Notice} {k : ManagerHandle}

/-- Progress is told alone, and of a manager that is syncing. -/
theorem SyncTold.progress (told : h.SyncTold c ns) {before after : List Notice} {percent : Single}
    {timestamp : Option UInt64}
    (split : ns = before ++ .manager k (.syncProgress percent timestamp) :: after) :
    before = [] ∧ ∃ m, h.tree.manager? k = some m ∧ m.state = .syncing := by
  have here : Notice.manager k (.syncProgress percent timestamp) ∈ ns := by simp [split]
  cases told with
  | calm calm => cases calm _ here
  | callback known place told =>
    cases told with
    | calm calm => cases calm _ here
    | started => simp at here
    | progress syncing =>
      rcases before with _ | ⟨_, before⟩ <;> simp at split
      obtain ⟨⟨rfl, -⟩, -⟩ := split
      exact ⟨rfl, _, place ▸ known, syncing⟩
    | ended =>
      unfold Manager.ending at here
      split at here <;> simp at here

/-- Only an engine that stops the sync of a manager has it told that the sync ended. -/
theorem SyncTold.ended (told : h.SyncTold c ns) {r : SyncStopReason}
    (here : .manager k (.syncEnded r) ∈ ns) :
    c = .callback k.backend (.manager k.raw (.syncStopped r)) ∧
      ∃ m, h.tree.manager? k = some m ∧ m.state ≠ .deleted := by
  cases told with
  | calm calm => cases calm _ here
  | callback known place told =>
    cases told with
    | calm calm => cases calm _ here
    | started => simp at here
    | progress => simp at here
    | ended live =>
      unfold Manager.ending at here
      split at here <;> simp at here <;> obtain ⟨rfl, rfl⟩ := here <;> rw [place] at *
      · exact ⟨rfl, _, known, live⟩
      · exact ⟨rfl, _, known, live⟩

end Hub

namespace Session

variable {s : Session}

/-- A manager that left its first state is in the one that it was last said to move to. -/
theorem saidState_of_known (hs : s.Reachable) {k : ManagerHandle} {m : Manager}
    (known : s.hub.tree.manager? k = some m) (moved : m.state ≠ .created) :
    saidState? k s.notices = some m.state := by
  have lived := hs.courses.managers k
  rw [Tree.managerState?, known] at lived
  obtain ⟨c, cs, hc, path, -⟩ := lived
  have last := path.getLast
  have some : c ≠ [] := by
    rintro rfl
    exact moved last
  rw [saidState?, lastMove?_of_courses hc some]
  cases steps : c.getLast? with
  | none => exact absurd (List.getLast?_eq_none_iff.1 steps) some
  | some x => rw [steps] at last; exact congrArg _ last.symm

/-- Pairs are kept, and progress is told only of managers that are syncing. -/
theorem Reachable.syncs (hs : s.Reachable) : Paired s.notices ∧ Progressing s.notices := by
  refine Reachable.invariant (P := fun s => Paired s.notices ∧ Progressing s.notices)
    (fun strict hasClient utxo account => ?_) (fun s c hs _ _ ih => ?_) (fun _ _ _ ih => ih) hs
  · have calm : Calm (Session.opened strict hasClient utxo account).notices :=
      calm_cons (n := .hub .created) rfl calm_nil
    refine ⟨calm.paired, fun before k p t after split => ?_⟩
    cases calm (.manager k (.syncProgress p t)) (by simp [split])
  · have told := Hub.syncTold_process hs.sound c
    rw [take, notices_after]
    refine ⟨ih.1.append told.paired, fun before k p t after split => ?_⟩
    rcases split_of_append split with ⟨rest, here⟩ | ⟨mid, rfl, there⟩
    · exact ih.2 before k p t rest here
    · obtain ⟨rfl, m, known, syncing⟩ := told.progress there
      rw [List.append_nil, ← syncing]
      exact saidState_of_known hs known (by simp [syncing])

/-- **Syncs.** In every run, changes into syncing and starts of syncs come in pairs, each start
right after its change, and progress is told only of a manager that was last said to be syncing.
Whenever an engine stops the sync of a manager that is not deleted, this is told once, with the
reason; the manager is connected then if it was syncing, which is told before, and else stays as it
was. Nothing else has it told that a sync ended. -/
theorem sync_protocol (hs : s.Reachable) :
    Paired s.notices ∧ Progressing s.notices ∧
    (∀ b i m r, s.hub.tree.manager? ⟨b, i⟩ = some m → m.state ≠ .deleted →
      (s.take (.callback b (.manager i (.syncStopped r)))).notices = s.notices ++ m.ending r ∧
      (s.take (.callback b (.manager i (.syncStopped r)))).hub.tree.manager? ⟨b, i⟩ =
        some { m with state := m.rested }) ∧
    ∀ c k r, .manager k (.syncEnded r) ∈ (s.hub.process c).notices →
      c = .callback k.backend (.manager k.raw (.syncStopped r)) ∧
        ∃ m, s.hub.tree.manager? k = some m ∧ m.state ≠ .deleted := by
  refine ⟨hs.syncs.1, hs.syncs.2, fun b i m r known live => ?_, fun c k r here =>
    (Hub.syncTold_process hs.sound c).ended here⟩
  obtain ⟨told, after, -⟩ := Hub.syncStopped_process hs.sound known live r
  exact ⟨(notices_after ..).trans (by rw [told]), after⟩

/-- A manager whose sync fails before it starts, then starts and breaks off, and then starts
anew. -/
def wandering : Session :=
  (opened true false none (some false)).takes
    [.request (daveOn .apiOnly "/tmp/dave"),
      .callback .account (.manager 0x2000 (.syncStopped .unknown)),
      .callback .account (.manager 0x2000 .syncStarted),
      .callback .account (.manager 0x2000 (.disconnected .unknown)),
      .callback .account (.manager 0x2000 .syncStarted),
      .callback .account (.manager 0x2000 (.syncProgress (.number false (some ⟨0, -149⟩)) none))]

theorem reachable_wandering : wandering.Reachable := (Reachable.opened ..).takes _

theorem sync_protocol_wandering :
    (∃ rest, wandering.notices.drop 7 = .manager ⟨.account, 0x2000⟩ .syncStarted :: rest) ∧
    saidState? ⟨.account, 0x2000⟩ (wandering.notices.take 11) = some .syncing ∧
    (wandering.take (.callback .account (.manager 0x2000 (.syncStopped .complete)))).notices =
      wandering.notices ++ [.manager ⟨.account, 0x2000⟩ (.changed .syncing .connected),
        .manager ⟨.account, 0x2000⟩ (.syncEnded .complete)] := by
  obtain ⟨paired, progressing, stopped, -⟩ := sync_protocol reachable_wandering
  refine ⟨paired.started (wandering.notices.take 6) _ .created _ (by decide +kernel),
    progressing _ _ (.number false (some ⟨0, -149⟩)) none [] (by decide +kernel), ?_⟩
  have present : (wandering.hub.tree.manager? ⟨.account, 0x2000⟩).map
      (fun m => (m.handle, m.state)) = some (⟨.account, 0x2000⟩, .syncing) := by decide +kernel
  obtain ⟨m, known, hm⟩ := Option.map_eq_some_iff.1 present
  obtain ⟨place, syncing⟩ := Prod.mk.inj hm
  obtain ⟨told, -⟩ := stopped _ _ m .complete known (by simp [syncing])
  rw [told, Manager.ending, place, syncing]
  rfl

end Session
end WalletHub
