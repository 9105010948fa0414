import WalletHub.Proofs.Index
import WalletHub.Proofs.Teardown

/-!
# Deleted managers are frozen

A manager that is deleted keeps its place among the records until the shutdown, without wallets, and
stays there as it is. What comes for it is discarded or refused; what comes for another manager
touches that manager only; and a manager that is made later has another number and serves another
account or network, since the index still leads to the deleted one.

* `undisturbed_process`: what one command leaves alone.
* `deleted_frozen`: what every run leaves alone until the shutdown.
-/
namespace WalletHub

/-- Whether an engine's command is about a manager, or for one in its place. -/
def EngineCommand.Concerns (b : Backend) (m : Manager) (c : EngineCommand) : Prop :=
  match c with
  | .createManager p => p.key = m.key
  | c => b = m.handle.backend ∧ c.manager? = some m.handle.raw

namespace Hub

open Handling

variable {k : ManagerHandle} {g h : Hub} {m : Manager} {ns : List Notice}

/-- On the way from `h` to `g` nothing happened to a manager, nothing was told of it, as `ns` shows,
and nothing was said of it to an engine. -/
structure Undisturbed (m : Manager) (h g : Hub) (ns : List Notice) : Prop where
  record : g.tree.manager? m.handle = some m
  untold : ∀ n ∈ ns, n.named? ≠ some m.handle
  unheard : h.Logs (fun b i => ¬i.command.Concerns b m) g

theorem Quiet.undisturbed (hq : h.Quiet g ns) (known : h.tree.manager? m.handle = some m) :
    h.Undisturbed m g ns :=
  ⟨hq.tree ▸ known, by simp [hq.told], .of_log hq.log⟩

/-- What is about another manager. -/
theorem About.undisturbed (ha : h.About k g ns) (known : h.tree.manager? m.handle = some m)
    (other : k ≠ m.handle) : h.Undisturbed m g ns := by
  refine ⟨(ha.tree.others _ (Ne.symm other)).trans known, fun n hn named => ?_,
    ha.logs.mono fun b i hi concerns => ?_⟩
  · rw [ha.named n hn] at named
    exact other (Option.some.inj named)
  · unfold EngineCommand.Concerns at concerns
    split at concerns
    · rename_i hc
      cases hc ▸ hi.2
    · exact other (hi.unique concerns)

/-- A manager that is made has another number and another key. -/
theorem Founds.undisturbed {p : ManagerParams} {made : Option ManagerHandle}
    (hf : h.Founds p g ns made) (filed : h.Filed) (known : h.tree.manager? m.handle = some m) :
    h.Undisturbed m g ns := by
  have listed : h.tree.index.get? m.key = some m.handle :=
    (filed.indexed _ _).2 (by rw [known]; rfl)
  have elsewhere (unlisted : h.tree.index.get? p.key = none) (b : Backend) :
      ¬(EngineCommand.createManager p).Concerns b m := by
    intro same
    rw [show p.key = m.key from same, listed] at unlisted
    cases unlisted
  cases hf with
  | known _ quiet => exact quiet.undisturbed known
  | refused unlisted tree told logs =>
    refine ⟨tree ▸ known, by simp [told], logs.mono fun b i hi => ?_⟩
    cases (show i = ⟨.createManager p, false⟩ from hi)
    exact elsewhere unlisted b
  | @made m' unlisted unknown key tree named log =>
    have other : m'.handle ≠ m.handle := by
      intro same
      rw [same, known] at unknown
      cases unknown
    refine ⟨?_, fun n hn => ?_, fun b => ⟨_, log b, fun i hi => ?_⟩⟩
    · rw [tree]
      simpa only [Tree.manager?, Registry.find?_findOrCreate, if_neg other] using known
    · rw [named n hn]
      exact fun same => other (Option.some.inj same)
    · split at hi
      · cases List.mem_singleton.1 hi
        exact elsewhere unlisted b
      · cases hi

/-- **Commands.** A command short of the shutdown leaves a deleted manager alone. -/
theorem undisturbed_process (hs : h.tree.Sound) (fresh : h.Fresh) (filed : h.Filed)
    (known : h.tree.manager? m.handle = some m) (deleted : m.state = .deleted) (c : Command)
    (going : (h.process c).life ≠ .stopped) :
    h.Undisturbed m (h.process c).hub (h.process c).notices := by
  by_cases names : c.manager? = some m.handle
  · exact (quiet_process_of_deleted hs known deleted names).undisturbed known
  · cases effect_process hs fresh c with
    | about other about =>
      exact about.undisturbed known fun same => names (same ▸ other)
    | founds asks founds => exact founds.undisturbed filed known
    | quiet quiet => exact quiet.undisturbed known
    | ending life => exact absurd life going

/-- Requests that name a deleted manager are refused. -/
theorem answer_of_deleted (known : h.tree.manager? k = some m) (deleted : m.state = .deleted)
    (lenient : h.strict = false) {q : Request} (names : q.manager? = some k) :
    ∃ e, (h.process (.request q)).answer = some (.error e) := by
  rw [process_request]
  rcases refused_of_deleted (h := h.count .request) known deleted names with ⟨e, he⟩ | ⟨e, he⟩ <;>
    rw [he]
  · exact ⟨e, rfl⟩
  · refine ⟨.precondition e, ?_⟩
    simp only [concludeRequest, violate, isFatal, lenient]
    rfl

end Hub

namespace Session

variable {s s' : Session}

/-- Deleted managers hold nothing, in every run. -/
theorem Reachable.bare (hs : s.Reachable) (fits : s.hub.Fits) : s.hub.tree.Bare := by
  refine Reachable.invariant_of_fits (P := fun s => s.hub.tree.Bare)
    (fun _ _ _ _ k m known => by cases known) (fun s c _ _ fresh outcome bare => ?_)
    (fun s h same bare => by rwa [same]) hs fits
  cases outcome with
  | onward _ told => exact told.invariant (P := Tree.Bare) (fun hc => hc.bare fresh) bare
  | ending _ _ _ _ tree => exact tree ▸ fun k m known => by cases known
  | halting _ _ tree =>
    rcases tree with tree | ⟨m, height, known, tree⟩
    · exact tree ▸ bare
    · intro k u hu deleted
      rw [take, after, tree, Tree.manager?_put known (by rfl)] at hu
      split at hu
      · cases hu
        exact bare _ m known deleted
      · exact bare k u hu deleted

/-- **Frozen.** From the moment at which a manager is deleted until the shutdown, as long as the
logs of the engines fit in memory, whatever happens: its record stays among the others as it is,
without wallets; nothing is told of it; nothing is said of it to an engine, and no manager is asked
for in its place; and unless preconditions are strict, every request that names it is refused. -/
theorem deleted_frozen (hs : s.Reachable) {k : ManagerHandle} {m : Manager}
    (known : s.hub.tree.manager? k = some m) (deleted : m.state = .deleted) (hrun : s.Run s')
    (fits : s'.hub.Fits) (going : s'.life ≠ .stopped) :
    s'.hub.tree.manager? k = some m ∧ m.wallets = .empty ∧
      (∃ told, s'.notices = s.notices ++ told ∧ ∀ n ∈ told, n.named? ≠ some k) ∧
      s.hub.Logs (fun b i => ¬i.command.Concerns b m) s'.hub ∧
      (s'.hub.strict = false → ∀ q : Request, q.manager? = some k →
        ∃ e, (s'.hub.process (.request q)).answer = some (.error e)) := by
  obtain rfl := hs.sound.place known
  suffices alone : s'.hub.tree.manager? m.handle = some m ∧
      (∃ told, s'.notices = s.notices ++ told ∧ ∀ n ∈ told, n.named? ≠ some m.handle) ∧
      s.hub.Logs (fun b i => ¬i.command.Concerns b m) s'.hub by
    obtain ⟨record, untold, unheard⟩ := alone
    exact ⟨record, (hs.run hrun).bare fits _ m record deleted, untold, unheard,
      fun lenient q names => Hub.answer_of_deleted record deleted lenient names⟩
  refine Run.invariant_of_going (P := fun s' => s'.hub.tree.manager? m.handle = some m ∧
      (∃ told, s'.notices = s.notices ++ told ∧ ∀ n ∈ told, n.named? ≠ some m.handle) ∧
      s.hub.Logs (fun b i => ¬i.command.Concerns b m) s'.hub) hs hrun fits going
    ⟨known, ⟨[], by simp, by simp⟩, .refl _ _⟩ (fun s₁ c hs₁ fits₁ running going alone => ?_)
    fun s₁ h tree log alone => ⟨tree ▸ alone.1, alone.2.1, alone.2.2.trans (.of_log log)⟩
  obtain ⟨record, ⟨told, notices, untold⟩, unheard⟩ := alone
  have now := Hub.undisturbed_process hs₁.sound (hs₁.fresh fits₁)
    (hs₁.filed fits₁ (by simp [running])) record deleted c going
  refine ⟨now.record, ⟨told ++ (s₁.hub.process c).notices, ?_, ?_⟩, unheard.trans now.unheard⟩
  · rw [take, notices_after, notices, List.append_assoc]
  · exact fun n hn => (List.mem_append.1 hn).elim (untold n) (now.untold n)

/-- A manager that its engine deletes. -/
def deserted : Session :=
  (opened false false none (some false)).takes
    [.request (daveOn .apiOnly "/tmp/dave"), .callback .account (.manager 0x2000 .deleted)]

/-- Callbacks and requests for it come late, it is asked for again, and somebody else comes. -/
def haunted : Session :=
  deserted.takes
    [.callback .account (.wallet 0x2000 0x2001 (.created "eth")),
      .callback .account (.manager 0x2000 .connected),
      .request (.connect ⟨.account, 0x2000⟩),
      .request (daveOn .p2pOnly "/tmp/elsewhere"),
      .request (.createManager ⟨⟨"erin", 0⟩, .ethereum true, .apiOnly, "/tmp/erin"⟩),
      .callback .account (.manager 0x2002 .connected)]

theorem deleted_frozen_haunted : ∃ m, deserted.hub.tree.manager? ⟨.account, 0x2000⟩ = some m ∧
    haunted.hub.tree.manager? ⟨.account, 0x2000⟩ = some m ∧ m.wallets = .empty ∧
    (∃ told, haunted.notices = deserted.notices ++ told ∧
      ∀ n ∈ told, n.named? ≠ some ⟨.account, 0x2000⟩) ∧
    ∃ e, (haunted.hub.process (.request (.disconnect ⟨.account, 0x2000⟩))).answer =
      some (.error e) := by
  have gone : (deserted.hub.tree.manager? ⟨.account, 0x2000⟩).map (·.state) = some .deleted := by
    decide +kernel
  obtain ⟨m, known, deleted⟩ := Option.map_eq_some_iff.1 gone
  have fits : haunted.hub.Fits := by
    apply Hub.fits_of_short
    intro b
    cases b <;> decide +kernel
  have going : haunted.life ≠ .stopped := by decide +kernel
  have lenient : haunted.hub.strict = false := by decide +kernel
  obtain ⟨record, bare, untold, -, refused⟩ :=
    deleted_frozen ((Reachable.opened ..).takes _) known deleted (run_takes _ _) fits going
  exact ⟨m, known, record, bare, untold, refused lenient _ rfl⟩

end Session
end WalletHub
