import WalletHub.Proofs.Brackets

/-!
# The end of a hub

A shutdown has every engine let go of the managers that were ever made there, deleted or not, in the
order in which they were made. Then it tells the end of all that is left: of a manager's wallets and
their transfers first, of the manager then, and of the hub at last. A manager that was deleted
before holds nothing any more, so there is nothing left to tell of it.

* `commands_teardown`: what engines are told.
* `partings_eq`: what the audience is told.
* `Reachable.closing`: what a shutdown does, in every run.
* `Reachable.closed`: what a run leaves that ends in a shutdown. Whatever came into being came to
  its end, as often.
-/
namespace WalletHub

/-! ## What is told of the end of a record -/

/-- The end of a transfer. -/
def Transfer.farewell (t : Transfer) : List Notice :=
  [.transfer t.path (.changed t.state .deleted), .transfer t.path .deleted,
    .wallet t.path.parent (.transferDeleted t.path)]

/-- The end of a wallet, and before it of its transfers. -/
def Wallet.farewell (w : Wallet) : List Notice :=
  w.transfers.records.flatMap Transfer.farewell ++
    [.wallet w.path (.changed .created .deleted), .wallet w.path .deleted,
      .manager w.path.manager (.walletDeleted w.path.wallet)]

/-- The end of a manager, and before it of its wallets. -/
def Manager.farewell (m : Manager) : List Notice :=
  m.wallets.records.flatMap Wallet.farewell ++
    [.manager m.handle (.changed m.state .deleted), .manager m.handle .deleted,
      .hub (.managerDeleted m.handle)]

theorem Registry.find?_of_mem_records {κ α : Type} [DecidableEq κ] {r : Registry κ α}
    (nodup : r.handles.Nodup) {a : α} (ha : a ∈ r.records) : ∃ h, r.find? h = some a := by
  obtain ⟨⟨h, b⟩, hmem, rfl⟩ := List.mem_map.1 ha
  exact ⟨h, findIn_of_mem nodup hmem⟩

theorem Wallet.retirement_eq_farewell {w : Wallet} (hw : w.Sound) (born : w.state = .created) :
    w.retirement = w.farewell := by
  have transfers : w.transfers.records.flatMap Transfer.retirement =
      w.transfers.records.flatMap Transfer.farewell := by
    refine List.flatMap_congr fun t ht => ?_
    obtain ⟨h, known⟩ := Registry.find?_of_mem_records hw.nodup ht
    exact Transfer.retirement_eq (hw.live known)
  rw [retirement_eq born, farewell, transfers]

theorem Manager.retirement_eq_farewell {m : Manager} (hm : m.Sound) :
    m.retirement = m.farewell := by
  have wallets : m.wallets.records.flatMap Wallet.retirement =
      m.wallets.records.flatMap Wallet.farewell := by
    refine List.flatMap_congr fun w hw => ?_
    obtain ⟨h, known⟩ := Registry.find?_of_mem_records hm.nodup hw
    exact Wallet.retirement_eq_farewell (hm.sound known) (hm.born known)
  rw [retirement, farewell, wallets]

namespace Hub

/-- Nothing is told of managers that were deleted before. -/
theorem partings_eq (ms : List Manager) (sound : ∀ m ∈ ms, m.Sound) :
    ms.flatMap parting = (ms.filter (·.state ≠ .deleted)).flatMap Manager.farewell := by
  induction ms with
  | nil => rfl
  | cons m ms ih =>
    have rest := ih fun x hx => sound x (List.mem_cons_of_mem _ hx)
    rw [List.flatMap_cons, rest]
    by_cases deleted : m.state = .deleted
    · simp [parting, deleted]
    · have end_eq := Manager.retirement_eq_farewell (sound m List.mem_cons_self)
      simp [parting, deleted, end_eq]

/-! ## What engines are told -/

/-- The commands that the engine of a backend got, oldest first. -/
def commands (h : Hub) (b : Backend) : List EngineCommand :=
  match h.engine? b with
  | some e => e.issued.map (·.command)
  | none => []

/-- The numbers of the managers of a backend. -/
def raws (b : Backend) (ks : List ManagerHandle) : List UInt64 :=
  (ks.filter (·.backend = b)).map (·.raw)

theorem commands_take (e : Engine) (c : EngineCommand) :
    (e.take c).1.issued.map (·.command) = e.issued.map (·.command) ++ [c] := by
  unfold Engine.take
  split <;> simp

theorem commands_withEngine (h : Hub) (b : Backend) (e : Engine) :
    (h.withEngine b e).commands b = e.issued.map (·.command) := by
  simp only [commands, engine?_withEngine_self]

theorem commands_withEngine_of_ne (h : Hub) {b b' : Backend} (e : Engine) (hb : b' ≠ b) :
    (h.withEngine b e).commands b' = h.commands b' := by
  simp only [commands, engine?_withEngine_of_ne e hb]

/-- No engine comes or goes when a manager is let go of. -/
theorem isSome_release (h : Hub) (k : ManagerHandle) (b : Backend) :
    ((h.release k).engine? b).isSome = (h.engine? b).isSome := by
  unfold release
  split
  · rename_i e he
    by_cases hb : b = k.backend
    · subst hb
      rw [engine?_withEngine_self, he]
      rfl
    · rw [engine?_withEngine_of_ne _ hb]
  · rfl

/-- One manager is let go of. -/
theorem commands_release (h : Hub) (k : ManagerHandle) {b : Backend}
    (there : (h.engine? b).isSome) :
    (h.release k).commands b = h.commands b ++ (raws b [k]).map .releaseManager := by
  unfold release
  by_cases hb : k.backend = b
  · subst hb
    obtain ⟨e, he⟩ := Option.isSome_iff_exists.1 there
    have told : raws k.backend [k] = [k.raw] := by simp [raws]
    rw [told]
    simp only [he, commands_withEngine, Engine.releaseManager, commands_take]
    simp only [commands, he, List.map_cons, List.map_nil]
  · have told : raws b [k] = [] := by simp [raws, hb]
    rw [told, List.map_nil, List.append_nil]
    split
    · exact commands_withEngine_of_ne h _ (Ne.symm hb)
    · rfl

/-- Managers are let go of one after the other. -/
theorem commands_releases (ks : List ManagerHandle) (h : Hub) {b : Backend}
    (there : (h.engine? b).isSome) :
    (ks.foldl release h).commands b = h.commands b ++ (raws b ks).map .releaseManager := by
  induction ks generalizing h with
  | nil => simp [raws]
  | cons k ks ih =>
    have still : ((h.release k).engine? b).isSome := (isSome_release h k b).trans there
    have first : raws b (k :: ks) = raws b [k] ++ raws b ks := by
      rw [raws, raws, raws, ← List.map_append, ← List.filter_append]
      rfl
    rw [List.foldl_cons, ih _ still, commands_release h k there, first, List.map_append,
      List.append_assoc]

theorem commands_teardown (h : Hub) {b : Backend} (there : (h.engine? b).isSome) :
    h.teardown.1.commands b =
      h.commands b ++ (raws b h.tree.managers.handles).map .releaseManager := by
  have releases : h.tree.managers.entries.foldl (fun h m => h.release m.1) h =
      h.tree.managers.handles.foldl release h := (List.foldl_map ..).symm
  have same (g : Hub) : ({ g with tree := .empty } : Hub).commands b = g.commands b := by
    cases b <;> rfl
  rw [← commands_releases _ h there, ← releases]
  exact same _

/-- A shutdown lets go of all managers and asks for nothing else. -/
theorem commands_shutdown (h : Hub) {b : Backend} (there : (h.engine? b).isSome) :
    (h.process .shutdown).hub.commands b =
      h.commands b ++ (raws b h.tree.managers.handles).map .releaseManager := by
  set counted := h.count fun c => { c with commands := c.commands + 1 } with hcounted
  have there' : (counted.engine? b).isSome := by cases b <;> exact there
  have torn := commands_teardown counted there'
  have before : counted.commands b = h.commands b := by cases b <;> rfl
  have after : (h.process .shutdown).hub.commands b = counted.teardown.1.commands b := by
    cases b <;> rfl
  rw [after, torn, before]
  rfl

end Hub

/-! ## Managers in the order of their creation -/

/-- The manager that a notice tells the creation of. -/
def Notice.founded? : Notice → Option ManagerHandle
  | .manager k .created => some k
  | _ => none

/-- The managers that notices tell the creation of, oldest first. -/
def founded (ns : List Notice) : List ManagerHandle := ns.filterMap (·.founded?)

theorem founded_append (ns ms : List Notice) : founded (ns ++ ms) = founded ns ++ founded ms :=
  List.filterMap_append

namespace Tree

variable {made : ManagerHandle → Prop} {guarded : Prop} {t t' : Tree} {ns ms : List Notice}

/-- A manager is put behind all others when its creation is told. -/
theorem Change.handles (hc : Change made guarded t ms t') :
    t'.managers.handles = t.managers.handles ++ founded ms := by
  cases hc with
  | indexed => exact (List.append_nil _).symm
  | managerCreated fresh => exact Registry.handles_findOrCreate _ fresh
  | manager _ step =>
    have nobody : founded ms = [] := by
      refine List.filterMap_eq_nil_iff.2 fun n hn => ?_
      have inside := step.2.inManager n hn
      cases n with
      | manager k n =>
        cases n with
        | created => exact absurd rfl inside.2
        | _ => rfl
      | hub | wallet | transfer => rfl
    rw [nobody, List.append_nil]
    exact Registry.handles_modify ..

theorem handles_of_trail (htrail : Trail (Change made guarded) t ms t')
    (h : t.managers.handles = founded ns) : t'.managers.handles = founded (ns ++ ms) :=
  htrail.told (P := fun _ => True) (Q := fun ns t => t.managers.handles = founded ns)
    (fun _ _ => trivial) (fun hc _ hq => by rw [hc.handles, hq, founded_append]) trivial h

/-! ## Deleted managers hold nothing -/

/-- A manager that is deleted has no wallets. -/
def Bare (t : Tree) : Prop :=
  ∀ k m, t.manager? k = some m → m.state = .deleted → m.wallets = .empty

theorem bare_of_step {m m' : Manager} (step : Manager.Step guarded m ms m') (hg : guarded)
    (deleted : m'.state = .deleted) : m'.wallets = .empty := by
  have live := step.1 hg
  cases step.2 with
  | retired _ bare => exact bare
  | moved _ alive => exact absurd deleted alive
  | spoke | raised | confirmed | walletCreated | wallet | walletRetired | modeSet =>
    exact absurd deleted live

theorem Change.bare (hc : Change made guarded t ms t') (hg : guarded) (ht : t.Bare) :
    t'.Bare := by
  intro k m known deleted
  cases hc with
  | indexed => exact ht k m known deleted
  | @managerCreated j n fresh _ _ _ _ bare =>
    rw [manager?, Registry.find?_findOrCreate, show t.managers.find? j = none from fresh] at known
    split at known
    · cases known
      exact bare
    · exact ht k m known deleted
  | @manager n n' _ there step =>
    rw [manager?_put there step.2.handle] at known
    split at known
    · cases known
      exact bare_of_step step hg deleted
    · exact ht k m known deleted

/-- When all managers are deleted, nothing is there but the hub. -/
theorem Bare.holds (ht : t.Bare) (gone : ∀ {k m}, t.manager? k = some m → m.state = .deleted)
    {x : Subject} (hx : x ≠ .hub) : t.holds x = false := by
  -- a manager that is there has no wallets, and so no transfers
  have nothing {k : ManagerHandle} {m : Manager} (known : t.manager? k = some m)
      (h : WalletHandle) : m.wallets.find? h = none := by
    rw [ht k m known (gone known)]
    exact Registry.find?_empty h
  cases x with
  | hub => exact absurd rfl hx
  | manager k =>
    cases known : t.manager? k with
    | none => simp [Tree.holds, managerState?, known, alive]
    | some m => simp [Tree.holds, managerState?, known, gone known, alive]
  | wallet p =>
    cases known : t.manager? p.manager with
    | none => simp [Tree.holds, walletState?, known, alive]
    | some m =>
      simp [Tree.holds, walletState?, known, Manager.walletState?, nothing known, alive]
  | transfer p =>
    cases known : t.manager? p.manager with
    | none => simp [Tree.holds, transferState?, known, alive]
    | some m =>
      simp [Tree.holds, transferState?, known, Manager.transferState?, nothing known, alive]

end Tree

/-! ## As many ends as creations -/

/-- In a row that is closed there are as many creations as ends, and one more if it is open. -/
theorem Row.balance {as : List Stroke} {o : Bool} (h : Row as o) :
    as.count .opens = as.count .closes + o.toNat := by
  induction h with
  | none => rfl
  | opens _ ih => simp [ih]
  | speaks _ ih => simpa using ih
  | closes _ ih => simpa using ih

/-- The subjects that notices tell the creation of, or the end of, in their order. -/
def subjects (k : Stroke) (ns : List Notice) : List Subject :=
  (ns.filter (·.stroke = k)).map (·.subject)

theorem count_strokes (x : Subject) (k : Stroke) (ns : List Notice) :
    (strokes x ns).count k = (subjects k ns).count x := by
  induction ns with
  | nil => rfl
  | cons n ns ih =>
    have first : strokes x (n :: ns) =
        (if n.subject = x then some n.stroke else none).toList ++ strokes x ns := by
      rw [strokes, List.filterMap_cons]
      split <;> rename_i h <;> rw [h] <;> rfl
    rw [first, List.count_append, ih, subjects, subjects, List.filter_cons]
    by_cases hx : n.subject = x <;> by_cases hk : n.stroke = k <;>
      simp [hx, hk, Nat.add_comm]

/-- Whatever came into being came to its end, as often, and nothing else came to an end. -/
def Balanced (ns : List Notice) : Prop := (subjects .opens ns).Perm (subjects .closes ns)

theorem balanced_of_rows {ns : List Notice} (rows : ∀ x, Row (strokes x ns) false) :
    Balanced ns := by
  refine List.perm_iff_count.2 fun x => ?_
  rw [← count_strokes, ← count_strokes]
  exact (rows x).balance

/-- The rows of a hub that ends when all its managers are deleted are closed. -/
theorem Tree.Bracketing.balanced {t : Tree} {ns : List Notice} (h : t.Bracketing ns)
    (bare : t.Bare) (gone : ∀ {k m}, t.manager? k = some m → m.state = .deleted) :
    Balanced (ns ++ [.hub .deleted]) := by
  refine balanced_of_rows fun x => ?_
  by_cases hx : x = .hub
  · subst hx
    rw [strokes_append]
    exact (h.rows .hub).closes
  · rw [strokes_ended hx]
    exact bare.holds gone hx ▸ h.rows x

namespace Session

variable {s : Session}

/-- While a hub goes on, its notices fit its records, its managers stand in the order in which they
were made, and those that are deleted hold nothing. -/
structure Ordered (s : Session) : Prop where
  bracketing : s.hub.tree.Bracketing s.notices
  handles : s.hub.tree.managers.handles = founded s.notices
  bare : s.hub.tree.Bare

/-- What a run leaves that ended in a shutdown. -/
structure Closed (s : Session) : Prop where
  /-- No manager is left, and nobody is in the index of accounts and networks. -/
  tree : s.hub.tree = .empty
  /-- The end of the hub is told once, and is the last thing told. -/
  last : ∃ before, s.notices = before ++ [.hub .deleted] ∧ .hub .deleted ∉ before
  /-- Nothing comes after it, whatever happens. -/
  final : ∀ s', s.Run s' → s'.life = .stopped ∧ s'.mail = s.mail
  balanced : Balanced s.notices

/-- A hub that does not go on tells nothing more. -/
theorem Run.silent {s' : Session} (hrun : s.Run s') (halted : s.life ≠ .running) :
    s'.life = s.life ∧ s'.mail = s.mail := by
  induction hrun with
  | refl => exact ⟨rfl, rfl⟩
  | tail _ hstep ih =>
    cases hstep with
    | command c running => exact absurd (ih.1 ▸ running) halted
    | setting | clock => exact ih

theorem Ordered.ending (ho : s.Ordered) (hs : s.Reachable) (fresh : s.hub.Fresh) {t : Turn}
    {ns : List Notice} {u : Tree} (life : t.life = .stopped)
    (told : Trail (s.hub.Change t.hub) s.hub.tree ns u)
    (gone : ∀ {k m}, u.manager? k = some m → m.state = .deleted)
    (notices : t.notices = ns ++ [.hub .deleted]) (tree : t.hub.tree = .empty) :
    (s.after t).Closed := by
  have bracketing := ho.bracketing.trail hs.sound fresh told
  have bare : u.Bare := told.invariant (P := Tree.Bare) (fun hc => hc.bare fresh) ho.bare
  have all : (s.after t).notices = s.notices ++ ns ++ [.hub .deleted] := by
    rw [notices_after, notices, List.append_assoc]
  refine ⟨tree, ⟨_, all, bracketing.going⟩, fun s' hrun => ?_, ?_⟩
  · obtain ⟨still, mail⟩ := Run.silent hrun (by simp [after, life])
    exact ⟨still.trans life, mail⟩
  · rw [all]
    exact bracketing.balanced bare gone

/-- **Order.** What a run looks like while the hub goes on, and after a shutdown. -/
theorem Reachable.ordered_or_closed (hs : s.Reachable) (fits : s.hub.Fits) :
    (s.life = .running → s.Ordered) ∧ (s.life = .stopped → s.Closed) := by
  refine Reachable.invariant_of_fits (P := fun s =>
      (s.life = .running → s.Ordered) ∧ (s.life = .stopped → s.Closed))
    (fun strict hasClient utxo account => ?_) (fun s c hs running fresh houtcome hp => ?_)
    (fun s h htree hp => ?_) hs fits
  · exact ⟨fun _ => ⟨Tree.bracketing_new, rfl, fun k m known => by cases known⟩,
      fun stopped => by cases stopped⟩
  · have now := hp.1 running
    cases houtcome with
    | onward life told =>
      refine ⟨fun _ => ⟨?_, ?_, ?_⟩, fun stopped => by cases life.symm.trans stopped⟩
      · rw [take, notices_after]
        exact now.bracketing.trail hs.sound fresh told
      · rw [take, notices_after]
        exact Tree.handles_of_trail told now.handles
      · exact told.invariant (P := Tree.Bare) (fun hc => hc.bare fresh) now.bare
    | ending life told gone notices tree =>
      exact ⟨fun running => (by cases life.symm.trans running),
        fun _ => now.ending hs fresh life told gone notices tree⟩
    | halting life =>
      exact ⟨fun running => (by cases life.symm.trans running),
        fun stopped => by cases life.symm.trans stopped⟩
  · refine ⟨fun running => ?_, fun stopped => ?_⟩
    · obtain ⟨bracketing, handles, bare⟩ := hp.1 running
      exact ⟨htree ▸ bracketing, htree ▸ handles, htree ▸ bare⟩
    · have stopped : s.life = .stopped := stopped
      obtain ⟨tree, last, -, balanced⟩ := hp.2 stopped
      refine ⟨htree ▸ tree, last, fun s' hrun => ?_, balanced⟩
      obtain ⟨still, mail⟩ := Run.silent hrun (by simp [stopped])
      exact ⟨still.trans stopped, mail⟩

/-! ## What a shutdown does -/

/-- What comes of a shutdown. -/
structure Closing (s : Session) : Prop where
  stopped : (s.take .shutdown).life = .stopped
  /-- Every engine is told to let go of the managers that were ever made there, once each, in the
  order in which they were made, and is told nothing else. -/
  released : ∀ b, (s.hub.engine? b).isSome → (s.take .shutdown).hub.commands b =
    s.hub.commands b ++ (Hub.raws b (founded s.notices)).map .releaseManager
  /-- No manager was made twice. -/
  once : (founded s.notices).Nodup
  /-- Managers stand in the order in which they were made, those that are deleted as well. -/
  order : s.hub.tree.managers.handles = founded s.notices
  /-- What is left is told the end of, and nothing is told of managers that were deleted before. -/
  told : (s.take .shutdown).notices = s.notices ++
    ((s.hub.tree.managers.records.filter (·.state ≠ .deleted)).flatMap Manager.farewell ++
      [.hub .deleted])
  /-- The audience is told at last that nothing follows. -/
  mail : ∃ es : List Event, (s.take .shutdown).mail = s.mail ++ (es.map .event ++ [.shutdown])
  closed : (s.take .shutdown).Closed

theorem notices_shutdown (h : Hub) : (h.process .shutdown).notices =
    h.tree.managers.records.flatMap Hub.parting ++ [.hub .deleted] := by
  have records : h.tree.managers.entries.flatMap (fun m => Hub.parting m.2) =
      h.tree.managers.records.flatMap Hub.parting := (List.flatMap_map ..).symm
  simp only [Turn.notices, Hub.process, List.filterMap_append]
  rw [← records]
  exact (List.append_nil _).trans (Hub.notices_numbered ..)

/-- **Shutdown.** Whenever a hub that runs is shut down, engines let go of all managers, all that is
left is told the end of, and nothing is left. -/
theorem Reachable.closing (hs : s.Reachable) (fits : s.hub.Fits) (running : s.life = .running) :
    s.Closing := by
  have now := (hs.ordered_or_closed fits).1 running
  have nodup : (founded s.notices).Nodup := now.handles ▸ hs.sound.nodup
  have outcome := Hub.outcome_shutdown hs.sound
  have told : s.hub.tree.managers.records.flatMap Hub.parting = _ :=
    Hub.partings_eq _ fun m hm => by
      obtain ⟨k, known⟩ := Registry.find?_of_mem_records hs.sound.nodup hm
      exact hs.sound.sound known
  refine ⟨rfl, fun b there => ?_, nodup, now.handles, ?_, ⟨_, rfl⟩, ?_⟩
  · rw [← now.handles]
    exact Hub.commands_shutdown s.hub there
  · rw [take, notices_after, notices_shutdown, told]
  · cases outcome with
    | onward life => cases life
    | halting life => cases life
    | ending life trail gone notices tree =>
      exact now.ending hs (hs.fresh fits) life trail gone notices tree

/-- **The end.** What every run leaves that ended in a shutdown. -/
theorem Reachable.closed (hs : s.Reachable) (fits : s.hub.Fits) (stopped : s.life = .stopped) :
    s.Closed := (hs.ordered_or_closed fits).2 stopped

end Session
end WalletHub
